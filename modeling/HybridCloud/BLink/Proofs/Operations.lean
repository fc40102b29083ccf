import HybridCloud.BLink.Proofs.Parent

/-!
# The calls of an index keep the tree

A search goes down to the leaf that has the key in its range. Insertions and deletions change the
map that the tree stands for at their key only.
-/

namespace BLink

open Outcome Node Function

namespace Index

variable {s : Index} {seen : Int → KeyRange Nat} {m : Nat → Option Rid}

variable {fuel key : Nat} {p : Int}

theorem moveRight_eq (h : (s.pages p).needToRight key = false) (hfuel : 0 < fuel) :
    s.moveRight key fuel p = .next p := by
  cases fuel with
  | zero => exact absurd hfuel (Nat.lt_irrefl 0)
  | succ fuel =>
    unfold moveRight
    rw [h]
    rfl

variable {l : Nat}

/-- From a node whose range has the key, the way down ends at a leaf whose range has it, if there are
enough rounds for the height of the node. -/
theorem Tree.descend_cases (h : s.Tree s.range m) (rounds : Nat) {trace : List Int}
    (hp : s.level p = some l) (hk : (s.range p).Has key) (habove : s.Above l p trace)
    (hfuel : 0 < fuel) :
    (rounds ≤ l ∧ s.descend fuel key rounds p trace = .blocked) ∨
      (l < rounds ∧ ∃ leaf trace', s.descend fuel key rounds p trace = .next (leaf, trace') ∧
        s.level leaf = some 0 ∧ (s.range leaf).Has key ∧ s.Above 0 leaf trace') := by
  induction rounds generalizing l p trace with
  | zero => exact .inl ⟨Nat.zero_le l, rfl⟩
  | succ rounds ih =>
    unfold descend
    by_cases hleaf : (s.pages p).isLeaf = true
    · obtain rfl := (h.node p l hp).leaf_iff.1 hleaf
      rw [if_pos hleaf]
      exact .inr ⟨Nat.succ_pos rounds, p, trace, rfl, hp, hk, habove⟩
    · rw [if_neg hleaf]
      cases l with
      | zero => exact absurd ((h.node p 0 hp).leaf_iff.2 rfl) hleaf
      | succ l =>
        simp only [moveRight_eq (h.needToRight_eq_false hp hk) hfuel, next_bind]
        obtain ⟨hkid, hhas⟩ := h.childFor_has hp hk
        obtain ⟨-, -, -, -, -, -, hlevel⟩ := h.cover hp
        have habove' : s.Above l ((s.pages p).childFor key) (p :: trace) := ⟨hp, hkid, habove⟩
        rcases ih (hlevel _ hkid) hhas habove' with ⟨hle, hrun⟩ | ⟨hlt, hrun⟩
        · exact .inl ⟨by omega, hrun⟩
        · exact .inr ⟨by omega, hrun⟩

variable {L : Nat}

theorem Tree.findLeaf_cases (h : s.Tree s.range m) (hL : s.level s.rootPageId = some L)
    (fuel key : Nat) : (fuel ≤ L ∧ s.findLeaf fuel key = .blocked) ∨
      (L < fuel ∧ ∃ leaf trace, s.findLeaf fuel key = .next (leaf, trace) ∧
        s.level leaf = some 0 ∧ (s.range leaf).Has key ∧ s.Above 0 leaf trace) := by
  have hroot : (s.pages s.rootPageId).isRoot = true := (h.roots _ L hL).2 rfl
  have hall : (s.range s.rootPageId).Has key := by
    rw [h.all]
    exact KeyRange.all_has key
  unfold findLeaf
  rw [await_bind hroot]
  rcases Nat.eq_zero_or_pos fuel with rfl | hpos
  · exact .inl ⟨Nat.zero_le L, rfl⟩
  · have habove : s.Above L s.rootPageId [] := rfl
    rcases h.descend_cases fuel hL hall habove hpos with
      ⟨hle, hrun⟩ | ⟨hlt, leaf, trace, hrun, hlevel, hhas, habove'⟩
    · rw [hrun]
      exact .inl ⟨hle, rfl⟩
    · refine .inr ⟨hlt, leaf, trace, ?_, hlevel, hhas, habove'⟩
      rw [hrun]
      simp only [next_bind, moveRight_eq (h.needToRight_eq_false hlevel hhas) hpos, pure_def]

theorem Tree.findLeaf_spec (h : s.Tree s.range m) (hL : s.level s.rootPageId = some L)
    (hfuel : L < fuel) (key : Nat) :
    ∃ leaf trace, s.findLeaf fuel key = .next (leaf, trace) ∧ s.level leaf = some 0 ∧
      (s.range leaf).Has key ∧ s.Above 0 leaf trace := by
  rcases h.findLeaf_cases hL fuel key with ⟨hle, -⟩ | ⟨-, hspec⟩
  · omega
  · exact hspec

theorem Tree.findLeaf_blocked (h : s.Tree s.range m) (hL : s.level s.rootPageId = some L)
    (hfuel : ¬ L < fuel) (key : Nat) : s.findLeaf fuel key = .blocked := by
  rcases h.findLeaf_cases hL fuel key with ⟨-, hrun⟩ | ⟨hlt, -⟩
  · exact hrun
  · exact absurd hlt hfuel

variable {leaf : Int}

theorem Tree.leaf_spec (h : s.Tree seen m) (hl : s.level leaf = some 0) :
    (s.pages leaf).isLeaf = true ∧ Ascending (s.pages leaf).pairs ∧
      (∀ x ∈ (s.pages leaf).pairs, (s.range leaf).Has x.1) ∧
      ∀ k, (s.range leaf).Has k → find (s.pages leaf).pairs k = m k := by
  obtain ⟨hasc, hin, hfind⟩ := (h.node leaf 0 hl).entries.leaf rfl
  exact ⟨(h.node leaf 0 hl).leaf_iff.2 rfl, hasc, hin, hfind⟩

theorem Tree.contains_iff (h : s.Tree seen m) (hl : s.level leaf = some 0)
    (hk : (s.range leaf).Has key) :
    ((s.pages leaf).contains key = true ∧
      m key = some ((s.pages leaf).ridAt ((s.pages leaf).lowerBound key))) ∨
    ((s.pages leaf).contains key = false ∧ m key = none) := by
  obtain ⟨-, hasc, -, hfind⟩ := h.leaf_spec hl
  cases hc : (s.pages leaf).contains key with
  | true => exact .inl ⟨rfl, (hfind key hk).symm.trans (find_of_contains hasc hc)⟩
  | false => exact .inr ⟨rfl, (hfind key hk).symm.trans (find_of_not_contains hasc hc)⟩

/-- The entries of a leaf are replaced, and the map changes at one key of its range. -/
theorem Tree.setLeaf (h : s.Tree s.range m) (hl : s.level leaf = some 0)
    (hk : (s.range leaf).Has key) {pairs : List (Nat × Rid)} {value : Option Rid}
    (hasc : Ascending pairs) (hin : ∀ x ∈ pairs, x.1 = key ∨ x ∈ (s.pages leaf).pairs)
    (hfind : ∀ k, find pairs k = if k = key then value else find (s.pages leaf).pairs k) :
    (s.setPage leaf { s.pages leaf with pairs := pairs }).Tree s.range
      (update m key value) := by
  obtain ⟨-, -, hin', hfind'⟩ := h.leaf_spec hl
  refine h.setPairs hl ⟨fun _ => ⟨hasc, ?_, ?_⟩, ?_⟩ ?_ (fun _ _ _ _ _ _ => rfl) h.all
    h.seen_nonempty
  · intro x hx
    rcases hin x hx with heq | hmem
    · rw [heq]
      exact hk
    · exact hin' x hmem
  · intro k hk'
    rw [hfind, update_apply]
    split
    · rfl
    · exact hfind' k hk'
  · intro l' hl'
    cases hl'
  · intro k hne
    refine ⟨rfl, ?_⟩
    by_cases hkey : k = key
    · rw [hkey]
      exact hk
    · exact absurd (update_of_ne hkey _ _) hne

theorem Tree.withCache (h : s.Tree seen m) (lastLeaf : Int) (cache : Nat → Option Int) :
    ({ s with lastLeaf := lastLeaf, key2leaf := cache } : Index).Tree seen m where
  node p l hp := (h.node p l hp).frame (SameEntries.refl _) rfl rfl (fun _ _ hx => hx)
    (fun _ _ _ => rfl) (fun _ _ _ => rfl) (fun _ _ _ _ _ => rfl)
  placed := h.placed
  top := h.top
  all := h.all
  roots := h.roots
  disjoint := h.disjoint
  seen_nonempty := h.seen_nonempty

/-- The entries of the cache are leaves. -/
def CacheOk (s : Index) : Prop := ∀ key page, s.key2leaf key = some page → s.level page = some 0

/-- The index is a tree that stands for `m`, no node is full, and the cache has leaves only. -/
structure Ok (order : Nat) (s : Index) (m : Nat → Option Rid) : Prop where
  tree : s.Tree s.range m
  small : s.Small order
  cache : s.CacheOk

theorem CacheOk.grows {s' : Index} (h : s.CacheOk) (hgrow : s.Grows s') : s'.CacheOk := by
  intro key page hpage
  rw [hgrow.key2leaf] at hpage
  exact hgrow.level page 0 (h key page hpage)

variable {order : Nat}

theorem Ok.withCache (h : s.Ok order m) (cache : Nat → Option Int)
    (hcache : ∀ key page, cache key = some page → s.level page = some 0) :
      ({ s with key2leaf := cache } : Index).Ok order m :=
  ⟨h.tree.withCache s.lastLeaf cache, h.small, hcache⟩

theorem splitState_keyAt (hne : leaf ≠ s.nextPage) (hleaf : (s.pages leaf).isLeaf = true) :
    ((s.splitState leaf).pages s.nextPage).keyAt 0 = (s.pages leaf).splitKey := by
  have hpairs : ((s.splitState leaf).pages s.nextPage).pairs =
      (s.pages leaf).pairs.drop (s.pages leaf).oldSize := by
    rw [(splitState_new hne).pairs, splitRight, if_pos hleaf]
  unfold splitKey keyAt
  rw [hpairs, List.getD_eq_getElem?_getD, List.getD_eq_getElem?_getD, List.getElem?_drop,
    Nat.add_zero]

theorem updateLastLeaf_eq (s : Index) (bro : Int) (hleaf : leaf ≠ 0) :
    ∃ lastLeaf, s.updateLastLeaf leaf bro = .next { s with lastLeaf := lastLeaf } := by
  unfold updateLastLeaf
  split
  · rw [cassert_bind hleaf]
    exact ⟨bro, rfl⟩
  · exact ⟨s.lastLeaf, rfl⟩

theorem Pending.withLastLeaf {old new : Int} {sep : Nat} (h : s.Pending m old new sep l)
    (lastLeaf : Int) : ({ s with lastLeaf := lastLeaf } : Index).Pending m old new sep l :=
  ⟨h.tree.withCache lastLeaf s.key2leaf, h.old_level, h.new_level, h.ne, h.old_hi, h.new_lo⟩

theorem Above.withLastLeaf {trace : List Int} (h : s.Above l p trace) (lastLeaf : Int) :
    ({ s with lastLeaf := lastLeaf } : Index).Above l p trace :=
  h.frame rfl (fun _ _ hx => hx) (fun _ _ _ _ => rfl)

/-- What `insert_entry` of a key that is not there does: the leaf of the key gets the entry and, when
it is full, is split. -/
theorem Ok.insertEntry_cases (horder : 3 ≤ order) (h : s.Ok order m)
    (hL : s.level s.rootPageId = some L) (hfuel : L < fuel) (value : Rid) (hkey : m key = none) :
    ∃ leaf pairs s₁, s.level leaf = some 0 ∧ (s.range leaf).Has key ∧
      s₁ = s.setPage leaf { s.pages leaf with pairs := pairs } ∧
      pairs.length = (s.pages leaf).size + 1 ∧
      s₁.Tree s.range (update m key (some value)) ∧
      ((pairs.length ≠ order ∧ s.insertEntry order fuel key value = .next (s₁, leaf) ∧
          s₁.Ok order (update m key (some value))) ∨
        (pairs.length = order ∧ ∃ s', s.insertEntry order fuel key value = .next (s', leaf) ∧
          s'.Ok order (update m key (some value)) ∧ (s₁.splitState leaf).Grows s' ∧
          (s₁.splitState leaf).LeavesKept s')) := by
  obtain ⟨leaf, trace, hrun, hlevel, hhas, habove⟩ := h.tree.findLeaf_spec hL hfuel key
  obtain ⟨hleaf, hasc, -, -⟩ := h.tree.leaf_spec hlevel
  have hnot : (s.pages leaf).contains key = false := by
    rcases h.tree.contains_iff hlevel hhas with ⟨-, hsome⟩ | ⟨hc, -⟩
    · rw [hkey] at hsome
      cases hsome
    · exact hc
  obtain ⟨pairs, hinsert, hasc', hlen, hmem, hfind⟩ := insert_spec hasc hnot value
  have htree := h.tree.setLeaf hlevel hhas hasc' (fun x hx => by
    rcases (hmem x).1 hx with rfl | hx
    · exact .inl rfl
    · exact .inr hx) hfind
  have hpage : (s.setPage leaf { s.pages leaf with pairs := pairs }).pages leaf =
      { s.pages leaf with pairs := pairs } := update_self _ _ _
  have hbut := h.small.setPage leaf { s.pages leaf with pairs := pairs }
  have hgrow : s.Grows (s.setPage leaf { s.pages leaf with pairs := pairs }) :=
    ⟨fun _ _ hx => hx, rfl⟩
  refine ⟨leaf, pairs, _, hlevel, hhas, rfl, hlen, htree, ?_⟩
  unfold insertEntry
  simp only [hrun, next_bind, cassert_bind hleaf, hnot, Bool.false_eq_true, if_false, hinsert]
  have hsize : Node.size { s.pages leaf with pairs := pairs } = pairs.length := rfl
  rw [hsize, cassert_bind (show (s.pages leaf).size ≠ pairs.length by omega)]
  by_cases hfull : pairs.length = order
  · -- the leaf is full: it is split, and the parents get an entry for the new leaf
    right
    have hsize' := (congrArg Node.size hpage).trans hfull
    have hplaced := h.tree.placed leaf 0 hlevel
    obtain ⟨hpending, habove', hsmall', hgrow'⟩ := htree.split_full hlevel hsize' (by omega)
      (habove.setPage hlevel _) hbut
    obtain ⟨lastLeaf, hlast⟩ := updateLastLeaf_eq
      ((s.setPage leaf { s.pages leaf with pairs := pairs }).splitState leaf)
      (s.setPage leaf { s.pages leaf with pairs := pairs }).nextPage (show leaf ≠ 0 by omega)
    have hkeyAt := splitState_keyAt (htree.ne_nextPage hlevel) (by rw [hpage]; exact hleaf)
    obtain ⟨s', hrun', htree', hsmall'', hgrow'', hkept⟩ := insertIntoParent_spec horder fuel trace
      (hpending.withLastLeaf lastLeaf) (habove'.withLastLeaf lastLeaf) hsmall'
    have hgrows : ((s.setPage leaf { s.pages leaf with pairs := pairs }).splitState leaf).Grows s' :=
      ⟨hgrow''.level, hgrow''.key2leaf⟩
    refine ⟨hfull, s', ?_, ⟨htree', hsmall'', ?_⟩, hgrows, hkept⟩
    · rw [if_pos hfull]
      simp only [split_eq hsize' (show 2 ≤ order by omega), next_bind, hlast, hkeyAt, hrun', pure_def]
    · exact h.cache.grows ((hgrow.trans hgrow').trans hgrows)
  · left
    rw [if_neg hfull, pure_def]
    refine ⟨hfull, rfl, htree, hbut.small ?_, h.cache.grows hgrow⟩
    have hlt := h.small leaf 0 hlevel
    rw [hpage, hsize]
    omega

theorem Ok.insertEntry_spec (horder : 3 ≤ order) (h : s.Ok order m)
    (hL : s.level s.rootPageId = some L) (hfuel : L < fuel) (value : Rid) (hkey : m key = none) :
    ∃ s' leaf, s.insertEntry order fuel key value = .next (s', leaf) ∧
      s'.Ok order (update m key (some value)) := by
  obtain ⟨leaf, pairs, s₁, -, -, -, -, -, hcases⟩ := h.insertEntry_cases horder hL hfuel value hkey
  rcases hcases with ⟨-, hrun, hok⟩ | ⟨-, s', hrun, hok, -⟩
  · exact ⟨s₁, leaf, hrun, hok⟩
  · exact ⟨s', leaf, hrun, hok⟩

/-- `insert_entry` of a key that is there changes nothing. -/
theorem Ok.insertEntry_present (h : s.Ok order m) (hL : s.level s.rootPageId = some L)
    (hfuel : L < fuel) (value : Rid) (hkey : m key ≠ none) :
    s.insertEntry order fuel key value = .next (s, INVALID_PAGE_ID) := by
  obtain ⟨leaf, trace, hrun, hlevel, hhas, -⟩ := h.tree.findLeaf_spec hL hfuel key
  obtain ⟨hleaf, -, -, -⟩ := h.tree.leaf_spec hlevel
  rcases h.tree.contains_iff hlevel hhas with ⟨hc, -⟩ | ⟨-, hnone⟩
  · unfold insertEntry
    simp only [hrun, next_bind, cassert_bind hleaf, hc, if_true, pure_def]
  · exact absurd hnone hkey

theorem Ok.deleteEntry_spec (h : s.Ok order m) (hL : s.level s.rootPageId = some L)
    (hfuel : L < fuel) (key : Nat) :
    (∃ rid, m key = some rid ∧ rid.pageNo = -1 ∧ s.deleteEntry fuel key = .abort) ∨
      ∃ s', s.deleteEntry fuel key = .next (s', (m key).getD ⟨-1, -1⟩) ∧
        s'.Ok order (update m key none) := by
  obtain ⟨leaf, trace, hrun, hlevel, hhas, -⟩ := h.tree.findLeaf_spec hL hfuel key
  obtain ⟨hleaf, hasc, -, -⟩ := h.tree.leaf_spec hlevel
  unfold deleteEntry
  simp only [hrun, next_bind, cassert_bind hleaf]
  rcases h.tree.contains_iff hlevel hhas with ⟨hc, hsome⟩ | ⟨hc, hnone⟩
  · -- the key is in the leaf, which therefore is not empty
    have hpos : (s.pages leaf).size ≠ 0 := by
      obtain ⟨rest, hdrop⟩ := contains_eq_true hasc hc
      intro hzero
      have hnil : (s.pages leaf).pairs = [] := List.length_eq_zero_iff.1 hzero
      rw [hnil, List.drop_nil] at hdrop
      cases hdrop
    have hcond : ¬ ((s.pages leaf).size = 0 ∨ (s.pages leaf).contains key = false) := by
      rw [hc]
      rintro (hzero | hfalse)
      · exact hpos hzero
      · cases hfalse
    rw [if_neg hcond, hsome]
    by_cases hpage : ((s.pages leaf).ridAt ((s.pages leaf).lowerBound key)).pageNo = -1
    · left
      refine ⟨_, rfl, hpage, ?_⟩
      rw [cassert_bind_abort (not_not.2 hpage)]
    · right
      obtain ⟨pairs, hremove, hasc', hlen, hmem, hfind⟩ := remove_spec hasc hc
      rw [cassert_bind hpage, hremove, next_bind, pure_def]
      refine ⟨_, rfl, h.tree.setLeaf hlevel hhas hasc' (fun x hx => .inr (hmem x hx)) hfind,
        (h.small.setPage _ _).small ?_, h.cache⟩
      have hlt := h.small leaf 0 hlevel
      have hnew : ((s.setPage leaf { s.pages leaf with pairs := pairs }).pages leaf).size =
          pairs.length := by simp [setPage, size]
      rw [hnew]
      omega
  · right
    rw [if_pos (.inr hc), hnone, pure_def]
    refine ⟨s, rfl, ?_, h.small, h.cache⟩
    rw [update_eq_self_iff.2 hnone.symm]
    exact h.tree

/-- What a cached leaf says about a key is right, and a key that it does not have is looked for in the
tree. -/
theorem Ok.checkIfDirectlyGetPage_spec (h : s.Ok order m) (key : Nat) :
    ∃ cache found, s.checkIfDirectlyGetPage key = .next ({ s with key2leaf := cache }, found) ∧
      (∀ rid, found = some rid → m key = some rid) ∧
      ∀ k page, cache k = some page → s.level page = some 0 := by
  unfold checkIfDirectlyGetPage
  cases hc : s.key2leaf key with
  | none => exact ⟨s.key2leaf, none, rfl, fun _ hrid => (Option.some_ne_none _ hrid.symm).elim, h.cache⟩
  | some page =>
    have hlevel := h.cache key page hc
    obtain ⟨hleaf, hasc, hin, hfind⟩ := h.tree.leaf_spec hlevel
    dsimp only
    rw [cassert_bind hleaf, leafLookup_eq hleaf hasc, next_bind]
    cases hf : find (s.pages page).pairs key with
    | none =>
      refine ⟨update s.key2leaf key none, none, rfl,
        fun _ hrid => (Option.some_ne_none _ hrid.symm).elim, ?_⟩
      intro k p hp
      rw [update_apply] at hp
      split at hp
      · cases hp
      · exact h.cache k p hp
    | some rid =>
      refine ⟨s.key2leaf, some rid, rfl, ?_, h.cache⟩
      intro rid' hrid
      -- a key that the leaf has is in its range, where the leaf is right
      have hhas : (s.range page).Has key := by
        by_contra hnot
        have hnone : find (s.pages page).pairs key = none := find_eq_none fun x hx heq =>
          hnot (heq ▸ hin x hx)
        rw [hnone] at hf
        cases hf
      rw [← hfind key hhas, hf, hrid]

theorem Ok.searchTree_spec (h : s.Ok order m) (hL : s.level s.rootPageId = some L)
    (hfuel : L < fuel) (key : Nat) :
    ∃ s', s.searchTree fuel key = .next (s', m key) ∧ s'.Ok order m := by
  obtain ⟨leaf, trace, hrun, hlevel, hhas, -⟩ := h.tree.findLeaf_spec hL hfuel key
  obtain ⟨hleaf, hasc, -, hfind⟩ := h.tree.leaf_spec hlevel
  unfold searchTree
  simp only [hrun, next_bind, leafLookup_eq hleaf hasc, hfind key hhas]
  cases hm : m key with
  | none => exact ⟨s, rfl, h⟩
  | some rid =>
    refine ⟨_, rfl, h.withCache _ ?_⟩
    intro k page hpage
    rw [update_apply] at hpage
    split at hpage
    · cases hpage
      exact hlevel
    · exact h.cache k page hpage

theorem Ok.search_spec (h : s.Ok order m) (hL : s.level s.rootPageId = some L) (hfuel : L < fuel)
    (key : Nat) : ∃ s', s.search fuel key = .next (s', m key) ∧ s'.Ok order m := by
  obtain ⟨cache, found, hcheck, hfound, hcache⟩ := h.checkIfDirectlyGetPage_spec key
  have h' := h.withCache cache hcache
  unfold search
  rw [hcheck, next_bind]
  cases found with
  | some rid => exact ⟨_, by rw [hfound rid rfl]; rfl, h'⟩
  | none => exact h'.searchTree_spec hL hfuel key

theorem Ok.search_completed (h : s.Ok order m) {s' : Index} {found : Option Rid}
    (hrun : s.search fuel key = .next (s', found)) : found = m key ∧ s'.Ok order m := by
  obtain ⟨L, hL, -⟩ := h.tree.top
  by_cases hfuel : L < fuel
  · obtain ⟨s'', hrun', hok⟩ := h.search_spec hL hfuel key
    rw [hrun'] at hrun
    cases hrun
    exact ⟨rfl, hok⟩
  · -- only the cache can have answered
    obtain ⟨cache, found', hcheck, hfound, hcache⟩ := h.checkIfDirectlyGetPage_spec key
    have h' := h.withCache cache hcache
    unfold search at hrun
    rw [hcheck, next_bind] at hrun
    cases found' with
    | some rid =>
      cases hrun
      exact ⟨(hfound rid rfl).symm, h'⟩
    | none =>
      have hblocked := h'.tree.findLeaf_blocked hL hfuel key
      simp only [searchTree, hblocked, blocked_bind] at hrun
      cases hrun

end Index

end BLink
