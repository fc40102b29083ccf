import HybridCloud.BLink.Proofs.TreeInvariant

/-!
# Splitting a node

A split cuts the entries of a node and its range in two. Afterwards the parent, which knows nothing of
the new node yet, takes the two of them for one.
-/

namespace BLink

open Outcome Node Function

namespace Index

variable {s : Index} {seen : Int → KeyRange Nat} {m : Nat → Option Rid}

theorem pairs_cut {n : Node} {i : Nat} (hi : i < n.size) :
    ∃ x B, n.pairs.drop i = x :: B ∧ x.1 = n.keyAt i ∧ n.pairs = n.pairs.take i ++ x :: B := by
  obtain ⟨x, hx⟩ := exists_getElem? hi
  obtain ⟨hi', hx'⟩ := List.getElem?_eq_some_iff.1 hx
  refine ⟨x, n.pairs.drop (i + 1), ?_, (keyAt_of_getElem? hx).symm, ?_⟩
  · rw [List.drop_eq_getElem_cons hi', hx']
  · rw [← hx', ← List.drop_eq_getElem_cons hi', List.take_append_drop]

variable {level : Int → Option Nat} {A B : List (Nat × Rid)}

theorem EntriesOk.split_leaf {x : Nat × Rid} {r : KeyRange Nat}
    (h : EntriesOk seen level m (A ++ x :: B) r 0) (hA : A ≠ []) :
    EntriesOk seen level m A (r.below x.1) 0 ∧ EntriesOk seen level m (x :: B) (r.above x.1) 0 ∧
      (r.below x.1).NonEmpty ∧ (r.above x.1).NonEmpty := by
  obtain ⟨hasc, hin, hfind⟩ := h.leaf rfl
  obtain ⟨hascA, hascB, hcross⟩ := List.pairwise_append.1 hasc
  have hbelow : ∀ y ∈ A, y.1 < x.1 := fun y hy => hcross y hy x List.mem_cons_self
  have habove : ∀ y ∈ x :: B, x.1 ≤ y.1 := by
    intro y hy
    rcases List.mem_cons.1 hy with rfl | hmem
    · exact Nat.le_refl _
    · exact Nat.le_of_lt ((List.pairwise_cons.1 hascB).1 y hmem)
  have hmem : ∀ y ∈ A, y ∈ A ++ x :: B := fun y hy => List.mem_append_left _ hy
  have hmem' : ∀ y ∈ x :: B, y ∈ A ++ x :: B := fun y hy => List.mem_append_right _ hy
  refine ⟨⟨fun _ => ⟨hascA, ?_, ?_⟩, ?_⟩, ⟨fun _ => ⟨hascB, ?_, ?_⟩, ?_⟩, ?_, ?_⟩
  · intro y hy
    exact KeyRange.has_below_iff.2 ⟨(hin y (hmem y hy)).1, hbelow y hy⟩
  · intro k hk
    obtain ⟨hlo, hlt⟩ := KeyRange.has_below_iff.1 hk
    have hx := hin x (hmem' x List.mem_cons_self)
    have hr : r.Has k := ⟨hlo, fun b hb => Nat.lt_trans hlt (hx.2 b hb)⟩
    have hnone : find (x :: B) k = none := find_eq_none fun y hy => by
      have := habove y hy
      omega
    rw [← hfind k hr, find_append, hnone, Option.or_none]
  · intro l' hl
    cases hl
  · intro y hy
    exact KeyRange.has_above_iff.2 ⟨habove y hy, (hin y (hmem' y hy)).2⟩
  · intro k hk
    obtain ⟨hle, hhi⟩ := KeyRange.has_above_iff.1 hk
    have hx := hin x (hmem' x List.mem_cons_self)
    have hr : r.Has k := ⟨fun a ha => Nat.le_trans (hx.1 a ha) hle, hhi⟩
    have hnone : find A k = none := find_eq_none fun y hy => by
      have := hbelow y hy
      omega
    rw [← hfind k hr, find_append, hnone, Option.none_or]
  · intro l' hl
    cases hl
  · obtain ⟨y, A', rfl⟩ := List.exists_cons_of_ne_nil hA
    have hy : y ∈ y :: A' := List.mem_cons_self
    exact ⟨y.1, KeyRange.has_below_iff.2 ⟨(hin y (hmem y hy)).1, hbelow y hy⟩⟩
  · have hx : x ∈ x :: B := List.mem_cons_self
    exact ⟨x.1, KeyRange.has_above_iff.2 ⟨Nat.le_refl _, (hin x (hmem' x hx)).2⟩⟩

variable {l : Nat}

/-- The two halves of an internal node; the first key of the new one is not looked at. -/
theorem EntriesOk.split_inner {x : Nat × Rid} {r : KeyRange Nat}
    (h : EntriesOk seen level m (A ++ x :: B) r (l + 1)) (hA : A ≠ [])
    (hne : ∀ c, level c = some l → (seen c).NonEmpty) :
    EntriesOk seen level m A (r.below x.1) (l + 1) ∧
      EntriesOk seen level m ((NEG_KEY, x.2) :: B) (r.above x.1) (l + 1) ∧
      (r.below x.1).NonEmpty ∧ (r.above x.1).NonEmpty := by
  obtain ⟨y, rest, hp, hfirst, hcover, hlev⟩ := h.inner l rfl
  obtain ⟨z, A', rfl⟩ := List.exists_cons_of_ne_nil hA
  obtain ⟨rfl, rfl⟩ := List.cons.inj hp
  have hcover' : KeyRange.Cover seen r.lo z.2.pageNo (others A' ++ (x.1, x.2.pageNo) :: others B)
      r.hi := by simpa [others] using hcover
  obtain ⟨hleft, hright⟩ := KeyRange.cover_append.1 hcover'
  have hlevA : ∀ e ∈ z :: A', level e.2.pageNo = some l :=
    fun e he => hlev e (List.mem_append_left _ he)
  have hlevB : ∀ e ∈ x :: B, level e.2.pageNo = some l :=
    fun e he => hlev e (List.mem_append_right _ he)
  have hneOthers : ∀ {C : List (Nat × Rid)}, (∀ e ∈ C, level e.2.pageNo = some l) →
      ∀ w ∈ others C, (seen w.2).NonEmpty := by
    intro C hC w hw
    obtain ⟨e, he, rfl⟩ := List.mem_map.1 hw
    exact hne _ (hC e he)
  refine ⟨⟨?_, ?_⟩, ⟨?_, ?_⟩, ?_, ?_⟩
  · intro hl
    cases hl
  · intro l' hl
    cases hl
    exact ⟨z, A', rfl, hfirst, hleft, hlevA⟩
  · intro hl
    cases hl
  · intro l' hl
    cases hl
    refine ⟨(NEG_KEY, x.2), B, rfl, rfl, hright, ?_⟩
    intro e he
    rcases List.mem_cons.1 he with rfl | hmem
    · exact hlevB x List.mem_cons_self
    · exact hlevB e (List.mem_cons_of_mem _ hmem)
  · obtain ⟨k, hk⟩ := hne _ (hlevA z List.mem_cons_self)
    have hz : (seen z.2.pageNo).NonEmpty := ⟨k, hk⟩
    refine ⟨k, hleft.has_of_child hz (hneOthers fun e he => hlevA e (List.mem_cons_of_mem _ he))
      List.mem_cons_self hk⟩
  · obtain ⟨k, hk⟩ := hne _ (hlevB x List.mem_cons_self)
    have hx : (seen x.2.pageNo).NonEmpty := ⟨k, hk⟩
    have hright' : KeyRange.Cover seen (some x.1) x.2.pageNo (others B) r.hi := hright
    refine ⟨k, hright'.has_of_child hx (hneOthers fun e he => hlevB e (List.mem_cons_of_mem _ he))
      List.mem_cons_self hk⟩

/-- A new node has been split off `old` at `sep`, and the parent does not have it yet. -/
structure Pending (s : Index) (m : Nat → Option Rid) (old new : Int) (sep l : Nat) : Prop where
  tree : s.Tree (update s.range old ⟨(s.range old).lo, (s.range new).hi⟩) m
  old_level : s.level old = some l
  new_level : s.level new = some l
  ne : old ≠ new
  old_hi : (s.range old).hi = some sep
  new_lo : (s.range new).lo = some sep

theorem splitState_old (s : Index) (p : Int) :
    (s.splitState p).pages p = (s.pages p).splitLeft s.nextPage := by
  simp [splitState, setPage]

variable {p : Int}

theorem splitState_new (hp : p ≠ s.nextPage) :
    SameNode ((s.pages p).splitRight p) ((s.splitState p).pages s.nextPage) := by
  by_cases hnext : (s.pages p).isLeaf ∧ (s.pages p).nextLeaf ≠ INVALID_PAGE_ID
  · by_cases heq : s.nextPage = (s.pages p).nextLeaf
    · simp only [splitState, setPage, if_pos hnext, update_of_ne (Ne.symm hp)]
      rw [← heq, update_self, update_self]
      exact ⟨⟨rfl, rfl, rfl, rfl, rfl⟩, rfl⟩
    · simp only [splitState, setPage, if_pos hnext, update_of_ne (Ne.symm hp),
        update_of_ne heq, update_self]
      exact SameNode.refl _
  · simp only [splitState, setPage, if_neg hnext, update_of_ne (Ne.symm hp),
      update_self]
    exact SameNode.refl _

variable {q : Int}

theorem splitState_others (hqp : q ≠ p) (hq : q ≠ s.nextPage) :
    SameNode (s.pages q) ((s.splitState p).pages q) := by
  by_cases hnext : (s.pages p).isLeaf ∧ (s.pages p).nextLeaf ≠ INVALID_PAGE_ID
  · by_cases heq : q = (s.pages p).nextLeaf
    · simp only [splitState, setPage, if_pos hnext, update_of_ne hqp]
      rw [← heq, update_self, update_of_ne hq]
      exact ⟨⟨rfl, rfl, rfl, rfl, rfl⟩, rfl⟩
    · simp only [splitState, setPage, if_pos hnext, update_of_ne hqp,
        update_of_ne heq, update_of_ne hq]
      exact SameNode.refl _
  · simp only [splitState, setPage, if_neg hnext, update_of_ne hqp,
      update_of_ne hq]
    exact SameNode.refl _

theorem splitState_level (s : Index) (p : Int) :
    (s.splitState p).level = update s.level s.nextPage (s.level p) := by
  unfold splitState
  dsimp only
  split <;> rfl

theorem splitState_range (s : Index) (p : Int) : (s.splitState p).range =
    update (update s.range s.nextPage
      ((s.range p).above (s.pages p).splitKey)) p ((s.range p).below (s.pages p).splitKey) := by
  unfold splitState
  dsimp only
  split <;> rfl

theorem splitState_cut (s : Index) (p : Int) : (s.splitState p).cut =
    update (update s.cut s.nextPage
      (decide ((s.pages p).rightSibling ≠ INVALID_PAGE_ID))) p false := by
  unfold splitState
  dsimp only
  split <;> rfl

theorem splitState_rest (s : Index) (p : Int) : (s.splitState p).nextPage = s.nextPage + 1 ∧
    (s.splitState p).rootPageId = s.rootPageId ∧ (s.splitState p).key2leaf = s.key2leaf := by
  unfold splitState
  dsimp only
  split <;> exact ⟨rfl, rfl, rfl⟩

theorem Tree.split_entries (h : s.Tree s.range m) (hl : s.level p = some l)
    (hsize : 2 ≤ (s.pages p).size) (new : Int) :
    EntriesOk s.range s.level m ((s.pages p).splitLeft new).pairs
        ((s.range p).below (s.pages p).splitKey) l ∧
      EntriesOk s.range s.level m ((s.pages p).splitRight p).pairs
        ((s.range p).above (s.pages p).splitKey) l ∧
      ((s.range p).below (s.pages p).splitKey).NonEmpty ∧
      ((s.range p).above (s.pages p).splitKey).NonEmpty := by
  have hold : (s.pages p).oldSize < (s.pages p).size := by
    unfold oldSize
    omega
  obtain ⟨x, B, hdrop, hkey, hcut⟩ := pairs_cut hold
  have hpos : 0 < (s.pages p).oldSize := by
    unfold oldSize
    omega
  have htake : (s.pages p).pairs.take (s.pages p).oldSize ≠ [] := by
    intro hnil
    have hlen := congrArg List.length hnil
    rw [List.length_take] at hlen
    have : (s.pages p).pairs.length = (s.pages p).size := rfl
    simp only [List.length_nil] at hlen
    omega
  have hentries := (h.node p l hl).entries
  rw [hcut] at hentries
  have hsep : (s.pages p).splitKey = x.1 := hkey.symm
  have hleaf := (h.node p l hl).leaf_iff
  rw [hsep]
  cases l with
  | zero =>
    obtain ⟨hleft, hright, hne, hne'⟩ := hentries.split_leaf htake
    refine ⟨hleft, ?_, hne, hne'⟩
    simpa only [splitRight, hleaf.2 rfl, if_true, hdrop] using hright
  | succ l =>
    have hinner : (s.pages p).isLeaf = false := by
      cases hb : (s.pages p).isLeaf with
      | false => rfl
      | true => exact absurd (hleaf.1 hb) (Nat.succ_ne_zero l)
    obtain ⟨hleft, hright, hne, hne'⟩ := hentries.split_inner htake
      (fun c hc => (h.node c l hc).nonempty)
    refine ⟨hleft, ?_, hne, hne'⟩
    have hpairs : ((s.pages p).splitRight p).pairs = (NEG_KEY, x.2) :: B := by
      simp only [splitRight, hinner, hdrop, setFirstKey]
      rfl
    rw [hpairs]
    exact hright

theorem Tree.ne_nextPage (h : s.Tree seen m) (hl : s.level p = some l) : p ≠ s.nextPage := by
  have := (h.placed p l hl).2
  omega

theorem Tree.splitState_frame (h : s.Tree seen m) (p : Int) (hq : s.level q = some l) :
    (s.splitState p).level q = some l ∧ ((s.splitState p).range q).lo = (s.range q).lo ∧
      (q ≠ p → (s.splitState p).range q = s.range q ∧ (s.splitState p).cut q = s.cut q) := by
  have hne : q ≠ s.nextPage := h.ne_nextPage hq
  rw [splitState_level, splitState_range, splitState_cut, update_of_ne hne]
  refine ⟨hq, ?_, ?_⟩
  · by_cases hqp : q = p
    · subst hqp
      rw [update_self]
      rfl
    · rw [update_of_ne hqp, update_of_ne hne]
  · intro hqp
    simp only [update_of_ne hqp, update_of_ne hne, and_self]

theorem splitState_range_old (s : Index) (p : Int) :
    (s.splitState p).range p = (s.range p).below (s.pages p).splitKey := by
  rw [splitState_range, update_self]

theorem splitState_range_new (hp : p ≠ s.nextPage) :
    (s.splitState p).range s.nextPage = (s.range p).above (s.pages p).splitKey := by
  rw [splitState_range, update_of_ne hp.symm, update_self]

theorem splitState_cases {l' : Nat} (hl : s.level p = some l)
    (hq : (s.splitState p).level q = some l') :
    (q = s.nextPage ∧ l' = l) ∨ (q ≠ s.nextPage ∧ s.level q = some l') := by
  rw [splitState_level] at hq
  by_cases hnew : q = s.nextPage
  · subst hnew
    rw [update_self, hl] at hq
    exact .inl ⟨rfl, (Option.some.inj hq).symm⟩
  · rw [update_of_ne hnew] at hq
    exact .inr ⟨hnew, hq⟩

/-- The ranges of the nodes as their parents see them after a split. -/
def splitSeen (s : Index) (p : Int) : Int → KeyRange Nat :=
  update s.range s.nextPage ((s.range p).above (s.pages p).splitKey)

theorem splitSeen_eq (hp : p ≠ s.nextPage) : s.splitSeen p =
    update (s.splitState p).range p
      ⟨((s.splitState p).range p).lo, ((s.splitState p).range s.nextPage).hi⟩ := by
  funext q
  rw [splitState_range_old, splitState_range_new hp, splitState_range, splitSeen]
  by_cases hqp : q = p
  · subst hqp
    rw [update_self, update_of_ne hp]
    rfl
  · rw [update_of_ne hqp, update_of_ne hqp]

theorem Tree.split_old (h : s.Tree s.range m) (hl : s.level p = some l)
    (hsize : 2 ≤ (s.pages p).size) : (s.splitState p).NodeOk (s.splitSeen p) m p l := by
  obtain ⟨hentries, -, hne, -⟩ := h.split_entries hl hsize s.nextPage
  have hp := h.ne_nextPage hl
  have hplaced := h.placed p l hl
  constructor
  · rw [splitState_old]
    exact (h.node p l hl).leaf_iff
  · rw [splitState_range_old]
    exact hne
  · rw [splitState_old, splitState_range_old]
    intro _
    rfl
  · rw [splitState_old, splitState_range_old]
    refine hentries.congr (fun _ _ _ => rfl) ?_ fun c l' hc => (h.splitState_frame p hc).1
    intro e _ l' _ hlev
    exact update_of_ne (h.ne_nextPage hlev) _ _
  · right
    rw [splitState_old, splitState_range_old, splitState_cut, splitState_level,
      update_self]
    refine ⟨?_, ?_, (s.pages p).splitKey, rfl, ?_, ?_⟩
    · show s.nextPage ≠ -1
      omega
    · show update s.level s.nextPage (s.level p) s.nextPage = some l
      rw [update_self, hl]
    · show ((s.splitState p).range s.nextPage).lo = _
      rw [splitState_range_new hp]
      rfl
    · simp [splitLeft]

theorem Tree.split_new (h : s.Tree s.range m) (hl : s.level p = some l)
    (hsize : 2 ≤ (s.pages p).size) : (s.splitState p).NodeOk (s.splitSeen p) m s.nextPage l := by
  obtain ⟨-, hentries, -, hne⟩ := h.split_entries hl hsize s.nextPage
  have hp := h.ne_nextPage hl
  have hnode := h.node p l hl
  have hsame := splitState_new hp
  have hhigh : ((s.pages p).splitRight p).hasHighKey = false := by
    unfold splitRight
    split <;> rfl
  have hright : ((s.pages p).splitRight p).rightSibling = (s.pages p).rightSibling := by
    unfold splitRight
    split <;> rfl
  have hleaf : ((s.pages p).splitRight p).isLeaf = (s.pages p).isLeaf := by
    unfold splitRight
    split <;> simp_all
  constructor
  · rw [hsame.isLeaf, hleaf]
    exact hnode.leaf_iff
  · rw [splitState_range_new hp]
    exact hne
  · rw [hsame.hasHighKey, hhigh]
    intro hfalse
    cases hfalse
  · rw [hsame.pairs, splitState_range_new hp]
    refine hentries.congr (fun _ _ _ => rfl) ?_ fun c l' hc => (h.splitState_frame p hc).1
    intro e _ l' _ hlev
    exact update_of_ne (h.ne_nextPage hlev) _ _
  · unfold SiblingOk
    rw [hsame.rightSibling, hsame.hasHighKey, hhigh, hright, splitState_range_new hp]
    rcases hnode.sibling with ⟨hlast, hhi, -, -⟩ | ⟨hsib, hlev, b, hhi, hlo, -⟩
    · refine .inl ⟨hlast, hhi, rfl, ?_⟩
      rw [splitState_cut, update_of_ne hp.symm, update_self]
      simp [hlast]
    · obtain ⟨hlev', hlo', -⟩ := h.splitState_frame p hlev
      refine .inr ⟨hsib, hlev', b, hhi, hlo'.trans hlo, ?_⟩
      rw [splitState_cut, update_of_ne hp.symm, update_self]
      simp [hsib]

/-- A split keeps the tree, before the parent knows. -/
theorem Tree.split (h : s.Tree s.range m) (hl : s.level p = some l) (hsize : 2 ≤ (s.pages p).size) :
    (s.splitState p).Tree (s.splitSeen p) m := by
  have hp := h.ne_nextPage hl
  obtain ⟨hnext, hroot, -⟩ := splitState_rest s p
  obtain ⟨-, -, hneOld, hneNew⟩ := h.split_entries hl hsize s.nextPage
  constructor
  · intro q l' hq
    rcases splitState_cases hl hq with ⟨rfl, rfl⟩ | ⟨hqn, hq'⟩
    · exact h.split_new hl hsize
    · by_cases hqp : q = p
      · subst hqp
        rw [hl] at hq'
        cases hq'
        exact h.split_old hl hsize
      · obtain ⟨-, -, hkeep⟩ := h.splitState_frame p hq'
        refine (h.node q l' hq').frame (splitState_others hqp hqn).toSameEntries (hkeep hqp).1
          (hkeep hqp).2
          (fun x l hx => (h.splitState_frame p hx).1)
          (fun x l hx => (h.splitState_frame p hx).2.1) (fun _ _ _ => rfl) ?_
        intro e _ l' _ hlev
        exact update_of_ne (h.ne_nextPage hlev) _ _
  · intro q l' hq
    rcases splitState_cases hl hq with ⟨rfl, -⟩ | ⟨-, hq'⟩
    · have := h.placed p l hl
      omega
    · have := h.placed q l' hq'
      omega
  · obtain ⟨L, hL, hmax⟩ := h.top
    refine ⟨L, ?_, ?_⟩
    · rw [hroot]
      exact (h.splitState_frame p hL).1
    · intro q l' hq
      rcases splitState_cases hl hq with ⟨-, rfl⟩ | ⟨-, hq'⟩
      · exact hmax p _ hl
      · exact hmax q l' hq'
  · obtain ⟨L, hL, -⟩ := h.top
    rw [hroot, splitSeen, update_of_ne (h.ne_nextPage hL)]
    exact h.all
  · intro q l' hq
    rw [hroot]
    rcases splitState_cases hl hq with ⟨rfl, -⟩ | ⟨hqn, hq'⟩
    · obtain ⟨L, hL, -⟩ := h.top
      have hne := h.ne_nextPage hL
      have hnot : ((s.pages p).splitRight p).isRoot = false := by
        unfold splitRight
        split <;> rfl
      rw [(splitState_new hp).isRoot, hnot]
      simp [hne.symm]
    · by_cases hqp : q = p
      · subst hqp
        rw [splitState_old]
        exact h.roots q l hl
      · rw [(splitState_others hqp hqn).isRoot]
        exact h.roots q l' hq'
  · -- a key of a node after the split was a key of the node that its range is taken from
    have howner : ∀ q l' k, (s.splitState p).level q = some l' →
        ((s.splitState p).range q).Has k →
        (q = s.nextPage ∧ l' = l ∧ (s.range p).Has k ∧ (s.pages p).splitKey ≤ k) ∨
        (s.level q = some l' ∧ (s.range q).Has k ∧ (q = p → k < (s.pages p).splitKey)) := by
      intro q l' k hq hk
      rcases splitState_cases hl hq with ⟨rfl, rfl⟩ | ⟨hqn, hq'⟩
      · rw [splitState_range_new hp, KeyRange.has_above_iff] at hk
        obtain ⟨j, hj⟩ := hneOld
        rw [KeyRange.has_below_iff] at hj
        refine .inl ⟨rfl, rfl, ⟨?_, hk.2⟩, hk.1⟩
        intro a ha
        exact Nat.le_trans (hj.1 a ha) (Nat.le_trans (Nat.le_of_lt hj.2) hk.1)
      · by_cases hqp : q = p
        · subst hqp
          rw [splitState_range_old, KeyRange.has_below_iff] at hk
          obtain ⟨j, hj⟩ := hneNew
          rw [KeyRange.has_above_iff] at hj
          refine .inr ⟨hq', ⟨hk.1, ?_⟩, fun _ => hk.2⟩
          intro b hb
          exact Nat.lt_of_lt_of_le hk.2 (Nat.le_trans hj.1 (Nat.le_of_lt (hj.2 b hb)))
        · obtain ⟨-, -, hkeep⟩ := h.splitState_frame p hq'
          rw [(hkeep hqp).1] at hk
          exact .inr ⟨hq', hk, fun heq => absurd heq hqp⟩
    intro q q' l' k hq hq' hk hk'
    rcases howner q l' k hq hk with ⟨rfl, rfl, hin, hge⟩ | ⟨hlev, hin, hlt⟩
    · rcases howner q' _ k hq' hk' with ⟨rfl, -, -, -⟩ | ⟨hlev', hin', hlt'⟩
      · rfl
      · have heq := h.disjoint p q' _ k hl hlev' hin hin'
        have := hlt' heq.symm
        omega
    · rcases howner q' l' k hq' hk' with ⟨rfl, rfl, hin', hge⟩ | ⟨hlev', hin', -⟩
      · have heq := h.disjoint q p _ k hlev hl hin hin'
        have := hlt heq
        omega
      · exact h.disjoint q q' l' k hlev hlev' hin hin'
  · intro q l' hq
    unfold splitSeen
    rcases splitState_cases hl hq with ⟨rfl, -⟩ | ⟨hqn, hq'⟩
    · rw [update_self]
      exact hneNew
    · rw [update_of_ne hqn]
      exact (h.node q l' hq').nonempty

theorem Tree.split_pending (h : s.Tree s.range m) (hl : s.level p = some l)
    (hsize : 2 ≤ (s.pages p).size) :
    (s.splitState p).Pending m p s.nextPage (s.pages p).splitKey l := by
  have hp := h.ne_nextPage hl
  constructor
  · rw [← splitSeen_eq hp]
    exact h.split hl hsize
  · exact (h.splitState_frame p hl).1
  · rw [splitState_level, update_self, hl]
  · exact hp
  · rw [splitState_range_old]
    rfl
  · rw [splitState_range_new hp]
    rfl

end Index

end BLink
