import HybridCloud.BLink.Node
import HybridCloud.Lib.KeyRange

/-!
# What the operations of a node do

A leaf has its keys in ascending order, and `lower_bound` cuts its entries into those below a key
and the others. In an internal node the keys after the first one ascend, and `upper_bound` finds the
child that a key belongs to.
-/

namespace BLink

open Outcome

namespace Node

/-- The keys of the entries ascend. -/
def Ascending (pairs : List (Nat × Rid)) : Prop := pairs.Pairwise fun x y => x.1 < y.1

variable {n : Node} {key : Nat}

variable {x : Nat × Rid} {i : Nat}

theorem keyAt_of_getElem? (h : n.pairs[i]? = some x) : n.keyAt i = x.1 := by
  unfold keyAt
  rw [List.getD_eq_getElem?_getD, h, Option.getD_some]

theorem ridAt_of_getElem? (h : n.pairs[i]? = some x) : n.ridAt i = x.2 := by
  unfold ridAt
  rw [List.getD_eq_getElem?_getD, h, Option.getD_some]

theorem exists_getElem? (hi : i < n.size) : ∃ x, n.pairs[i]? = some x :=
  ⟨_, List.getElem?_eq_getElem hi⟩

theorem keyAt_lt {j : Nat} (h : Ascending n.pairs) (hij : i < j) (hj : j < n.size) :
    n.keyAt i < n.keyAt j := by
  obtain ⟨x, hx⟩ := exists_getElem? (Nat.lt_trans hij hj)
  obtain ⟨y, hy⟩ := exists_getElem? hj
  rw [keyAt_of_getElem? hx, keyAt_of_getElem? hy]
  obtain ⟨hi', rfl⟩ := List.getElem?_eq_some_iff.1 hx
  obtain ⟨hj', rfl⟩ := List.getElem?_eq_some_iff.1 hy
  exact List.pairwise_iff_getElem.1 h i j hi' hj' hij

variable {l : List (Nat × Rid)}

theorem mem_take {m : Nat} (h : x ∈ l.take m) : ∃ i < m, l[i]? = some x := by
  obtain ⟨i, hi⟩ := List.mem_iff_getElem?.1 h
  rw [List.getElem?_take] at hi
  split at hi
  · rename_i him
    exact ⟨i, him, hi⟩
  · cases hi

theorem mem_drop {m : Nat} (h : x ∈ l.drop m) : ∃ i, m ≤ i ∧ i < l.length ∧ l[i]? = some x := by
  obtain ⟨i, hi⟩ := List.mem_iff_getElem?.1 h
  rw [List.getElem?_drop] at hi
  obtain ⟨hlt, -⟩ := List.getElem?_eq_some_iff.1 hi
  exact ⟨m + i, by omega, hlt, hi⟩

/-- The binary search cuts the pairs at `key`. -/
theorem lowerBound_spec (h : Ascending n.pairs) (key : Nat) :
    n.lowerBound key ≤ n.size ∧ (∀ x ∈ n.pairs.take (n.lowerBound key), x.1 < key) ∧
      (∀ x ∈ n.pairs.drop (n.lowerBound key), key ≤ x.1) := by
  have hspec := boundary_spec (fun mid => decide (key ≤ n.keyAt mid)) n.size
    (Nat.zero_le n.size) (by omega) (by
      intro i j _ hij hj hi
      have hi' : key ≤ n.keyAt i := of_decide_eq_true hi
      rcases Nat.eq_or_lt_of_le hij with rfl | hlt
      · exact hi
      · have := keyAt_lt h hlt hj
        exact decide_eq_true (by omega))
  obtain ⟨-, hle, hbelow, habove⟩ := hspec
  refine ⟨hle, ?_, ?_⟩
  · intro x hx
    obtain ⟨i, hi, hget⟩ := mem_take hx
    have hlt := of_decide_eq_false (hbelow i (Nat.zero_le i) hi)
    rw [keyAt_of_getElem? hget] at hlt
    omega
  · intro x hx
    obtain ⟨i, hi, hsize, hget⟩ := mem_drop hx
    have hge := of_decide_eq_true (habove i hi hsize)
    rwa [keyAt_of_getElem? hget] at hge

theorem drop_lowerBound (n : Node) (key : Nat) :
    n.pairs.drop (n.lowerBound key) = [] ∧ n.size ≤ n.lowerBound key ∨
      ∃ x rest, n.pairs.drop (n.lowerBound key) = x :: rest ∧ n.lowerBound key < n.size ∧
        n.pairs[n.lowerBound key]? = some x := by
  cases hd : n.pairs.drop (n.lowerBound key) with
  | nil =>
    left
    exact ⟨rfl, List.drop_eq_nil_iff.1 hd⟩
  | cons x rest =>
    right
    have hget : n.pairs[n.lowerBound key]? = some x := by
      have h : (n.pairs.drop (n.lowerBound key))[0]? = n.pairs[n.lowerBound key + 0]? :=
        List.getElem?_drop
      rw [hd, Nat.add_zero] at h
      exact h.symm
    obtain ⟨hlt, -⟩ := List.getElem?_eq_some_iff.1 hget
    exact ⟨x, rest, rfl, hlt, hget⟩

theorem contains_eq_true (h : Ascending n.pairs) (hc : n.contains key = true) :
    ∃ rest, n.pairs.drop (n.lowerBound key) = (key, n.ridAt (n.lowerBound key)) :: rest := by
  unfold contains isIt at hc
  simp only [Bool.and_eq_true, bne_iff_ne, ne_eq, beq_iff_eq] at hc
  obtain ⟨hle, -, -⟩ := lowerBound_spec h key
  rcases drop_lowerBound n key with ⟨-, hsize⟩ | ⟨x, rest, hd, -, hget⟩
  · omega
  · refine ⟨rest, ?_⟩
    rw [hd, ridAt_of_getElem? hget, ← hc.2, keyAt_of_getElem? hget]

theorem contains_eq_false (h : Ascending n.pairs) (hc : n.contains key = false) :
    ∀ x ∈ n.pairs.drop (n.lowerBound key), key < x.1 := by
  obtain ⟨-, -, habove⟩ := lowerBound_spec h key
  intro x hx
  have hge := habove x hx
  rcases drop_lowerBound n key with ⟨hnil, -⟩ | ⟨y, rest, hd, hlt, hget⟩
  · rw [hnil] at hx
    simp at hx
  · have hne : y.1 ≠ key := by
      unfold contains isIt at hc
      rw [keyAt_of_getElem? hget] at hc
      intro heq
      have hnsize : n.lowerBound key ≠ n.size := by omega
      simp [heq, hnsize] at hc
    have hy : key ≤ y.1 := habove y (by simp [hd])
    have hsorted : (y :: rest).Pairwise fun x y => x.1 < y.1 := by
      rw [← hd]
      exact h.sublist (List.drop_sublist _ _)
    rw [hd] at hx
    rcases List.mem_cons.1 hx with rfl | hmem
    · omega
    · have := (List.pairwise_cons.1 hsorted).1 x hmem
      omega

/-- The record id that the entries have for a key. -/
def find (pairs : List (Nat × Rid)) (key : Nat) : Option Rid :=
  (pairs.find? fun x => x.1 == key).map Prod.snd

theorem find_append (A B : List (Nat × Rid)) (key : Nat) :
    find (A ++ B) key = (find A key).or (find B key) := by
  unfold find
  rw [List.find?_append]
  cases hA : A.find? fun x => x.1 == key <;> simp

theorem find_cons (x : Nat × Rid) (l : List (Nat × Rid)) (key : Nat) :
    find (x :: l) key = if x.1 = key then some x.2 else find l key := by
  unfold find
  by_cases hx : x.1 = key
  · simp [hx]
  · simp [hx, beq_eq_false_iff_ne.2 hx]

theorem find_eq_none (h : ∀ x ∈ l, x.1 ≠ key) : find l key = none := by
  induction l with
  | nil => rfl
  | cons x l ih =>
    rw [find_cons, if_neg (h x List.mem_cons_self)]
    exact ih fun y hy => h y (List.mem_cons_of_mem _ hy)

theorem find_isSome (hx : x ∈ l) : find l x.1 ≠ none := by
  induction l with
  | nil => simp at hx
  | cons y l ih =>
    rw [find_cons]
    split
    · exact Option.some_ne_none _
    · rename_i hne
      rcases List.mem_cons.1 hx with rfl | hmem
      · exact absurd rfl hne
      · exact ih hmem

theorem find_cut (h : Ascending n.pairs) (key : Nat) :
    find n.pairs key = find (n.pairs.drop (n.lowerBound key)) key := by
  obtain ⟨-, hbelow, -⟩ := lowerBound_spec h key
  have hnone : find (n.pairs.take (n.lowerBound key)) key = none :=
    find_eq_none fun x hx => Nat.ne_of_lt (hbelow x hx)
  have hcut := find_append (n.pairs.take (n.lowerBound key)) (n.pairs.drop (n.lowerBound key)) key
  rw [List.take_append_drop, hnone, Option.none_or] at hcut
  exact hcut

theorem find_of_contains (h : Ascending n.pairs) (hc : n.contains key = true) :
    find n.pairs key = some (n.ridAt (n.lowerBound key)) := by
  obtain ⟨rest, hd⟩ := contains_eq_true h hc
  rw [find_cut h, hd, find_cons, if_pos rfl]

theorem find_of_not_contains (h : Ascending n.pairs) (hc : n.contains key = false) :
    find n.pairs key = none := by
  rw [find_cut h]
  exact find_eq_none fun x hx => Nat.ne_of_gt (contains_eq_false h hc x hx)

theorem leafLookup_eq (hleaf : n.isLeaf = true) (h : Ascending n.pairs) (key : Nat) :
    n.leafLookup key = .next (find n.pairs key) := by
  unfold leafLookup
  rw [cassert_bind hleaf]
  cases hc : n.contains key with
  | true => simp [find_of_contains h hc]
  | false => simp [find_of_not_contains h hc]

theorem insert_spec (h : Ascending n.pairs) (hc : n.contains key = false) (value : Rid) :
    ∃ pairs, n.insert key value = .next { n with pairs := pairs } ∧ Ascending pairs ∧
      pairs.length = n.size + 1 ∧ (∀ x, x ∈ pairs ↔ x = (key, value) ∨ x ∈ n.pairs) ∧
      ∀ k, find pairs k = if k = key then some value else find n.pairs k := by
  obtain ⟨hle, hbelow, -⟩ := lowerBound_spec h key
  have habove := contains_eq_false h hc
  refine ⟨n.pairs.take (n.lowerBound key) ++ [(key, value)] ++ n.pairs.drop (n.lowerBound key),
    ?_, ?_, ?_, ?_, ?_⟩
  · unfold insert
    by_cases hsize : n.size = 0
    · have hnil : n.pairs = [] := List.eq_nil_of_length_eq_zero hsize
      rw [if_pos hsize]
      simp [insertPairs, cassert, hnil]
    · rw [if_neg hsize]
      simp [hc, insertPairs, cassert, hle]
  · unfold Ascending
    rw [List.append_assoc, List.pairwise_append, List.singleton_append, List.pairwise_cons]
    refine ⟨h.sublist (List.take_sublist _ _),
      ⟨fun x hx => habove x hx, h.sublist (List.drop_sublist _ _)⟩, ?_⟩
    intro x hx y hy
    have hxk := hbelow x hx
    rcases List.mem_cons.1 hy with rfl | hmem
    · exact hxk
    · exact Nat.lt_trans hxk (habove y hmem)
  · simp only [List.length_append, List.length_take, List.length_drop, List.length_cons,
      List.length_nil]
    unfold size at hle ⊢
    omega
  · intro x
    have hcut : x ∈ n.pairs ↔ x ∈ n.pairs.take (n.lowerBound key) ∨
        x ∈ n.pairs.drop (n.lowerBound key) := by
      rw [← List.mem_append, List.take_append_drop]
    simp only [List.mem_append, List.mem_singleton, hcut]
    tauto
  · intro k
    rw [List.append_assoc, find_append, List.singleton_append, find_cons]
    have hcut := find_append (n.pairs.take (n.lowerBound key)) (n.pairs.drop (n.lowerBound key)) k
    rw [List.take_append_drop] at hcut
    by_cases hk : k = key
    · have hnone : find (n.pairs.take (n.lowerBound key)) k = none :=
        find_eq_none fun x hx => Nat.ne_of_lt (hk ▸ hbelow x hx)
      rw [hnone, if_pos hk.symm, if_pos hk, Option.none_or]
    · rw [if_neg (Ne.symm hk), if_neg hk, hcut]

theorem remove_spec (h : Ascending n.pairs) (hc : n.contains key = true) :
    ∃ pairs, n.remove key = .next { n with pairs := pairs } ∧ Ascending pairs ∧
      pairs.length < n.size ∧ (∀ x ∈ pairs, x ∈ n.pairs) ∧
      ∀ k, find pairs k = if k = key then none else find n.pairs k := by
  obtain ⟨hle, hbelow, -⟩ := lowerBound_spec h key
  obtain ⟨rest, hd⟩ := contains_eq_true h hc
  have hlt : n.lowerBound key < n.size := by
    have hlen := congrArg List.length hd
    simp only [List.length_drop, List.length_cons] at hlen
    unfold size
    omega
  have hrest : n.pairs.drop (n.lowerBound key + 1) = rest := by
    rw [← List.drop_drop, hd, List.drop_one, List.tail_cons]
  have hsub : (n.pairs.eraseIdx (n.lowerBound key)).Sublist n.pairs := List.eraseIdx_sublist _ _
  refine ⟨n.pairs.eraseIdx (n.lowerBound key), ?_, h.sublist hsub, ?_, ?_, ?_⟩
  · simp [remove, hc, erasePair, cassert, hlt]
  · rw [List.length_eraseIdx_of_lt hlt]
    unfold size at hlt ⊢
    omega
  · exact fun x hx => hsub.subset hx
  · intro k
    have habove : ∀ x ∈ rest, key < x.1 := by
      have hsorted : ((key, n.ridAt (n.lowerBound key)) :: rest).Pairwise
          fun x y => x.1 < y.1 := by
        rw [← hd]
        exact h.sublist (List.drop_sublist _ _)
      exact (List.pairwise_cons.1 hsorted).1
    rw [List.eraseIdx_eq_take_drop_succ, hrest, find_append]
    have hcut := find_append (n.pairs.take (n.lowerBound key)) (n.pairs.drop (n.lowerBound key)) k
    rw [List.take_append_drop, hd, find_cons] at hcut
    by_cases hk : k = key
    · have hnone : find (n.pairs.take (n.lowerBound key)) k = none :=
        find_eq_none fun x hx => Nat.ne_of_lt (hk ▸ hbelow x hx)
      have hnone' : find rest k = none :=
        find_eq_none fun x hx => Nat.ne_of_gt (hk ▸ habove x hx)
      rw [hnone, hnone', if_pos hk]
      rfl
    · rw [if_neg hk, hcut, if_neg (Ne.symm hk)]

/-- The child is the last one whose key is not above `key`. -/
theorem childFor_spec {rest : List (Nat × Rid)} (hp : n.pairs = x :: rest) (h : Ascending rest)
    (key : Nat) :
    ∃ A B, rest = A ++ B ∧ (∀ y ∈ A, y.1 ≤ key) ∧ (∀ y ∈ B, key < y.1) ∧
      n.childFor key = (A.map fun y => y.2.pageNo).getLastD x.2.pageNo := by
  have hsize : n.size = rest.length + 1 := by simp [size, hp]
  have hget : ∀ i, n.pairs[i + 1]? = rest[i]? := by
    intro i
    rw [hp, List.getElem?_cons_succ]
  have hmono : ∀ i j, 1 ≤ i → i ≤ j → j < n.size → decide (key < n.keyAt i) = true →
      decide (key < n.keyAt j) = true := by
    intro i j hi hij hj hlt
    rcases Nat.eq_or_lt_of_le hij with rfl | hlt'
    · exact hlt
    · obtain ⟨i, rfl⟩ : ∃ i', i = i' + 1 := ⟨i - 1, by omega⟩
      obtain ⟨j, rfl⟩ : ∃ j', j = j' + 1 := ⟨j - 1, by omega⟩
      obtain ⟨y, hy⟩ := exists_getElem? (n := n) (i := i + 1) (by omega)
      obtain ⟨z, hz⟩ := exists_getElem? (n := n) (i := j + 1) hj
      have hlt₁ := of_decide_eq_true hlt
      rw [keyAt_of_getElem? hy] at hlt₁
      rw [keyAt_of_getElem? hz]
      rw [hget] at hy hz
      obtain ⟨hi', rfl⟩ := List.getElem?_eq_some_iff.1 hy
      obtain ⟨hj', rfl⟩ := List.getElem?_eq_some_iff.1 hz
      have hyz := List.pairwise_iff_getElem.1 h i j hi' hj' (by omega)
      exact decide_eq_true (Nat.lt_trans hlt₁ hyz)
  have hspec := boundary_spec (fun mid => decide (key < n.keyAt mid)) n.size
    (l := 1) (r := n.size) (by omega) (by omega) hmono
  obtain ⟨hge, hle, hbelow, habove⟩ := hspec
  have hub : n.upperBound key =
      boundary (fun mid => decide (key < n.keyAt mid)) n.size 1 n.size := rfl
  refine ⟨rest.take (n.upperBound key - 1), rest.drop (n.upperBound key - 1),
    (List.take_append_drop _ _).symm, ?_, ?_, ?_⟩
  · intro y hy
    obtain ⟨i, hi, hy'⟩ := mem_take hy
    have hnot := of_decide_eq_false (hbelow (i + 1) (by omega) (by omega))
    rw [keyAt_of_getElem? ((hget i).trans hy')] at hnot
    omega
  · intro y hy
    obtain ⟨i, hi, hlen, hy'⟩ := mem_drop hy
    have hlt := of_decide_eq_true (habove (i + 1) (by omega) (by omega))
    rwa [keyAt_of_getElem? ((hget i).trans hy')] at hlt
  · unfold childFor valueAt
    cases hpos : n.upperBound key - 1 with
    | zero =>
      have hfirst : n.pairs[0]? = some x := by rw [hp, List.getElem?_cons_zero]
      rw [ridAt_of_getElem? hfirst]
      simp
    | succ i =>
      have hi : i < rest.length := by omega
      have hy : rest[i]? = some (rest.get ⟨i, hi⟩) := List.getElem?_eq_getElem hi
      rw [ridAt_of_getElem? ((hget i).trans hy), List.take_add_one, hy, Option.toList_some,
        List.map_append, List.map_singleton, List.getLastD_concat]

theorem findChild_eq_some {child : Int} {A B : List (Nat × Rid)} (hp : n.pairs = A ++ x :: B)
    (hx : x.2.pageNo = child) (hA : ∀ y ∈ A, y.2.pageNo ≠ child) :
    n.findChild child = some A.length := by
  unfold findChild
  rw [hp, List.findIdx?_append]
  have hnone : A.findIdx? (fun e => e.2.pageNo == child) = none := by
    rw [List.findIdx?_eq_none_iff]
    intro y hy
    exact beq_eq_false_iff_ne.2 (hA y hy)
  rw [hnone]
  simp [List.findIdx?_cons, hx]

end Node

end BLink
