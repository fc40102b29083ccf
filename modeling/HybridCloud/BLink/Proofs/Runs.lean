import HybridCloud.BLink.Proofs.Operations

/-!
# The index is a finite map

Along every sequence of calls by one thread the tree stands for the keys that were inserted and not
deleted since, with the record ids of their last insertions.
-/

namespace BLink

open Outcome Node

namespace Index

theorem empty_level {p : Int} {l : Nat} (h : empty.level p = some l) : p = 2 ∧ l = 0 := by
  have h' : (if p = 2 then some 0 else none) = some l := h
  split at h'
  · next hp => exact ⟨hp, (Option.some.inj h').symm⟩
  · cases h'

/-- The empty index is a tree without keys. -/
theorem empty_ok {order : Nat} (horder : 0 < order) : empty.Ok order fun _ => none := by
  have hnode : empty.NodeOk empty.range (fun _ => none) 2 0 := by
    refine ⟨⟨fun _ => rfl, fun _ => rfl⟩, ⟨0, KeyRange.all_has 0⟩, ?_, ⟨fun _ => ⟨?_, ?_, ?_⟩, ?_⟩, ?_⟩
    · intro hfalse
      cases hfalse
    · exact List.Pairwise.nil
    · intro x hx
      cases hx
    · intro k _
      rfl
    · intro l' hl'
      cases hl'
    · exact .inl ⟨rfl, rfl, rfl, rfl⟩
  refine ⟨⟨?_, ?_, ?_, rfl, ?_, ?_, ?_⟩, ?_, ?_⟩
  · intro p l hp
    obtain ⟨rfl, rfl⟩ := empty_level hp
    exact hnode
  · intro p l hp
    obtain ⟨rfl, -⟩ := empty_level hp
    exact ⟨Int.le_refl 2, by decide⟩
  · refine ⟨0, rfl, ?_⟩
    intro p l hp
    obtain ⟨-, rfl⟩ := empty_level hp
    exact Nat.le_refl 0
  · intro p l hp
    obtain ⟨rfl, -⟩ := empty_level hp
    exact ⟨fun _ => rfl, fun _ => rfl⟩
  · intro p q l k hp hq _ _
    rw [(empty_level hp).1, (empty_level hq).1]
  · intro p l _
    exact ⟨0, KeyRange.all_has 0⟩
  · intro p l hp
    obtain ⟨rfl, -⟩ := empty_level hp
    exact horder
  · intro key page hpage
    cases hpage

end Index

namespace Store

variable {s s' : Store} {order : Nat}

/-- The index is a tree that stands for the contents. -/
def Ok (order : Nat) (s : Store) : Prop := s.index.Ok order s.contents

theorem Ok.height (h : s.Ok order) : ∃ L, s.index.level s.index.rootPageId = some L := by
  obtain ⟨L, hL, -⟩ := h.tree.top
  exact ⟨L, hL⟩

/-- The map that the tree stands for after a call. -/
def Action.after (m : Nat → Option Rid) : Action → Nat → Option Rid
  | .insertEntry _ key value => if m key = none then Function.update m key (some value) else m
  | .deleteEntry _ key => Function.update m key none
  | .search _ _ => m

/-- Every call keeps the tree. -/
theorem step_ok {m : Nat → Option Rid} {a : Action} (horder : 3 ≤ order)
    (h : s.index.Ok order m) (htaken : s.step order a = .next s') :
    s'.index.Ok order (a.after m) := by
  obtain ⟨L, hL, -⟩ := h.tree.top
  cases a with
  | insertEntry fuel key value =>
    by_cases hfuel : L < fuel
    · by_cases hkey : m key = none
      · obtain ⟨index, leaf, hrun, hok⟩ := h.insertEntry_spec horder hL hfuel value hkey
        simp only [Store.step, hrun, next_bind, pure_def, next.injEq] at htaken
        rw [← htaken, Action.after, if_pos hkey]
        exact hok
      · have hrun := h.insertEntry_present hL hfuel value hkey
        simp only [Store.step, hrun, next_bind, pure_def, next.injEq] at htaken
        rw [← htaken, Action.after, if_neg hkey]
        exact h
    · have hblocked := h.tree.findLeaf_blocked hL hfuel key
      simp only [Store.step, Index.insertEntry, hblocked, blocked_bind] at htaken
      cases htaken
  | deleteEntry fuel key =>
    by_cases hfuel : L < fuel
    · rcases h.deleteEntry_spec hL hfuel key with ⟨-, -, -, hrun⟩ | ⟨index, hrun, hok⟩
      · simp only [Store.step, hrun, abort_bind] at htaken
        cases htaken
      · simp only [Store.step, hrun, next_bind, pure_def, next.injEq] at htaken
        rw [← htaken]
        exact hok
    · have hblocked := h.tree.findLeaf_blocked hL hfuel key
      simp only [Store.step, Index.deleteEntry, hblocked, blocked_bind] at htaken
      cases htaken
  | search fuel key =>
    simp only [Store.step, bind_eq_next] at htaken
    obtain ⟨⟨index, found⟩, hrun, htaken⟩ := htaken
    simp only [pure_def, next.injEq] at htaken
    rw [← htaken]
    exact (h.search_completed hrun).2

theorem step_contents {a : Action} (hfresh : s.FreshKeys a) (htaken : s.step order a = .next s') :
    s'.contents = a.after s.contents := by
  cases a with
  | insertEntry fuel key value =>
    simp only [Store.step, bind_eq_next, pure_def, next.injEq] at htaken
    obtain ⟨-, -, rfl⟩ := htaken
    exact (if_pos hfresh).symm
  | deleteEntry fuel key | search fuel key =>
    simp only [Store.step, bind_eq_next, pure_def, next.injEq] at htaken
    obtain ⟨-, -, rfl⟩ := htaken
    rfl

theorem ORDER_ge : 3 ≤ ORDER := by decide

theorem Ok.of_run (run : Run (Store.step ORDER) FreshKeys start s) : s.Ok ORDER := by
  have hstart : start.Ok ORDER := Index.empty_ok (by decide)
  refine run.invariant hstart fun h hfresh htaken => ?_
  rw [Ok, step_contents hfresh htaken]
  exact step_ok ORDER_ge h htaken

/-- Also where keys are inserted that are there, the index is a tree. -/
theorem index_ok_of_run (run : Run (Store.step ORDER) (fun _ _ => True) start s) :
    ∃ m, s.index.Ok ORDER m := by
  refine run.invariant (P := fun s => ∃ m, s.index.Ok ORDER m)
    ⟨fun _ => none, Index.empty_ok (by decide)⟩ ?_
  rintro s a s' ⟨m, h⟩ - htaken
  exact ⟨a.after m, step_ok ORDER_ge h htaken⟩

/-- Keys in a row that are inserted into a leaf with room for them. -/
theorem fill (p : Int) (n a : Nat) (run : Run (Store.step ORDER) FreshKeys start s)
    (hp : s.index.level p = some 0) (hsize : (s.index.pages p).size + n < ORDER)
    (hkeys : ∀ k, a ≤ k → k < a + n → s.contents k = none ∧ (s.index.range p).Has k) :
    ∃ s', Run (Store.step ORDER) FreshKeys start s' ∧ s'.index.level = s.index.level ∧
      s'.index.range = s.index.range ∧ s'.index.nextPage = s.index.nextPage ∧
      (s'.index.pages p).size = (s.index.pages p).size + n ∧
      (s'.index.pages p).rightSibling = (s.index.pages p).rightSibling ∧
      ∀ k, s'.contents k = none ↔ s.contents k = none ∧ ¬ (a ≤ k ∧ k < a + n) := by
  induction n with
  | zero => exact ⟨s, run, rfl, rfl, rfl, rfl, rfl, fun k => by simp⟩
  | succ n ih =>
    obtain ⟨s₁, run₁, hlevel, hrange, hnext, hsize₁, hright, hcontents⟩ := ih (by omega)
      (fun k hk hk' => hkeys k hk (by omega))
    have h := Ok.of_run run₁
    obtain ⟨L, hL⟩ := h.height
    obtain ⟨hfresh, hhas⟩ := hkeys (a + n) (by omega) (by omega)
    have hnone : s₁.contents (a + n) = none := (hcontents _).2 ⟨hfresh, by omega⟩
    obtain ⟨leaf, pairs, s₂, hleaf, hhas', hs₂, hlen, -, hcases⟩ := Index.Ok.insertEntry_cases
      ORDER_ge h hL (Nat.lt_succ_self L) ⟨1, 0⟩ hnone
    -- the key is in the range of one leaf only
    obtain rfl : leaf = p := by
      rw [← hlevel] at hp
      rw [← hrange] at hhas
      exact h.tree.disjoint leaf p 0 (a + n) hleaf hp hhas' hhas
    rcases hcases with ⟨-, hrun, -⟩ | ⟨hfull, -⟩
    · have htaken : s₁.step ORDER (.insertEntry (L + 1) (a + n) ⟨1, 0⟩) =
          .next ⟨s₂, Function.update s₁.contents (a + n) (some ⟨1, 0⟩)⟩ := by
        simp only [Store.step, hrun, next_bind, pure_def]
      have hpage : s₂.pages leaf = { s₁.index.pages leaf with pairs := pairs } := by
        rw [hs₂]
        exact Function.update_self _ _ _
      have hok : s₁.FreshKeys (.insertEntry (L + 1) (a + n) ⟨1, 0⟩) := hnone
      refine ⟨_, run₁.step hok htaken, ?_, ?_, ?_, ?_, ?_, ?_⟩
      · rw [← hlevel, hs₂]
        rfl
      · rw [← hrange, hs₂]
        rfl
      · rw [← hnext, hs₂]
        rfl
      · have hsize₂ : (s₂.pages leaf).size = pairs.length := by rw [hpage]; rfl
        show (s₂.pages leaf).size = _
        omega
      · rw [hpage]
        exact hright
      · intro k
        by_cases hk : k = a + n
        · subst hk
          simp
        · show Function.update s₁.contents (a + n) _ k = none ↔ _
          rw [Function.update_of_ne hk, hcontents]
          refine and_congr_right fun _ => ?_
          omega
    · omega

/-- One more key in a leaf that has room for one key splits the leaf. -/
theorem insert_last (p : Int) (key : Nat) (run : Run (Store.step ORDER) FreshKeys start s)
    (hp : s.index.level p = some 0) (hsize : (s.index.pages p).size + 1 = ORDER)
    (hkey : s.contents key = none) (hhas : (s.index.range p).Has key) :
    ∃ s' sep, Run (Store.step ORDER) FreshKeys start s' ∧
      s'.contents = Function.update s.contents key (some ⟨1, 0⟩) ∧ s'.contents sep ≠ none ∧
      s'.index.level p = some 0 ∧ s'.index.range p = (s.index.range p).below sep ∧
      (s'.index.pages p).size = ORDER / 2 ∧
      (s'.index.pages p).rightSibling = s.index.nextPage ∧
      s'.index.level s.index.nextPage = some 0 ∧ (s'.index.cut s.index.nextPage = false ↔
        (s.index.pages p).rightSibling = INVALID_PAGE_ID) := by
  have h := Ok.of_run run
  obtain ⟨L, hL⟩ := h.height
  obtain ⟨leaf, pairs, s₁, hleaf, hhas', hs₁, hlen, htree, hcases⟩ := Index.Ok.insertEntry_cases
    ORDER_ge h hL (Nat.lt_succ_self L) ⟨1, 0⟩ hkey
  obtain rfl := h.tree.disjoint leaf p 0 key hleaf hp hhas' hhas
  have hpage : s₁.pages leaf = { s.index.pages leaf with pairs := pairs } := by
    rw [hs₁]
    exact Function.update_self _ _ _
  have hlevel : s₁.level = s.index.level := by rw [hs₁]; rfl
  have hrange : s₁.range = s.index.range := by rw [hs₁]; rfl
  have hnext : s₁.nextPage = s.index.nextPage := by rw [hs₁]; rfl
  rcases hcases with ⟨hne, -⟩ | ⟨hfull, s', hrun, -, hgrow, hkept⟩
  · omega
  · rw [← hlevel] at hp
    have hold := htree.ne_nextPage hp
    obtain ⟨hlevel', -, -⟩ := htree.splitState_frame leaf hp
    have hnew : (s₁.splitState leaf).level s₁.nextPage = some 0 := by
      rw [Index.splitState_level, Function.update_self, hp]
    obtain ⟨hsame, hrange', -⟩ := hkept leaf hlevel'
    obtain ⟨-, -, hcut⟩ := hkept s₁.nextPage hnew
    have hsize₁ : (s₁.pages leaf).size = ORDER := by
      rw [hpage]
      exact hfull
    have htaken : s.step ORDER (.insertEntry (L + 1) key ⟨1, 0⟩) =
        .next ⟨s', Function.update s.contents key (some ⟨1, 0⟩)⟩ := by
      simp only [Store.step, hrun, next_bind, pure_def]
    have hok : s.FreshKeys (.insertEntry (L + 1) key ⟨1, 0⟩) := hkey
    refine ⟨_, (s₁.pages leaf).splitKey, run.step hok htaken, rfl, ?_,
      hgrow.level leaf 0 hlevel', ?_, ?_, ?_, ?_, ?_⟩
    · -- the leaf is cut at one of its keys
      have hlt : (s₁.pages leaf).oldSize < (s₁.pages leaf).size := by
        rw [oldSize, hsize₁]
        decide
      obtain ⟨x, B, -, hx, hp'⟩ := Index.pairs_cut hlt
      obtain ⟨-, -, hin, hfind⟩ := htree.leaf_spec hp
      have hmem : x ∈ (s₁.pages leaf).pairs := by
        rw [hp']
        simp
      have hsome := find_isSome hmem
      rw [hfind x.1 (hin x hmem), hx] at hsome
      exact hsome
    · rw [hrange', Index.splitState_range_old, hrange]
    · show (s'.pages leaf).pairs.length = ORDER / 2
      rw [hsame.pairs, Index.splitState_old]
      have hlen' : (s₁.pages leaf).pairs.length = ORDER := hsize₁
      simp only [splitLeft, oldSize, List.length_take, hlen', hsize₁]
      omega
    · rw [← hnext, hsame.rightSibling, Index.splitState_old]
      rfl
    · rw [← hnext]
      exact hgrow.level _ 0 hnew
    · rw [← hnext, hcut, Index.splitState_cut, Function.update_of_ne hold.symm,
        Function.update_self, hpage]
      simp

/-- 253 keys in ascending order split the root. -/
theorem ascending_keys : ∃ s sep, Run (Store.step ORDER) FreshKeys start s ∧
    (∀ k, k < 1000 → s.contents k = none) ∧ s.contents 1252 = some ⟨1, 0⟩ ∧
    s.contents sep ≠ none ∧ s.index.level 2 = some 0 ∧
    s.index.range 2 = KeyRange.all.below sep ∧ (s.index.pages 2).size = ORDER / 2 ∧
    (s.index.pages 2).rightSibling = 3 ∧ s.index.level 3 = some 0 ∧ s.index.cut 3 = false := by
  obtain ⟨s₁, run₁, hlevel₁, hrange₁, hnext₁, hsize₁, hright₁, hcontents₁⟩ :=
    fill 2 252 1000 .start rfl (by decide) fun k _ _ => ⟨rfl, KeyRange.all_has k⟩
  obtain ⟨s₂, sep, run₂, hcontents₂, hsep, hlevel₂, hrange₂, hsize₂, hright₂, hnew, hcut⟩ :=
    insert_last 2 1252 run₁ (by rw [hlevel₁]; rfl) (by rw [hsize₁]; decide)
      ((hcontents₁ _).2 ⟨rfl, by omega⟩) (by rw [hrange₁]; exact KeyRange.all_has _)
  rw [hnext₁] at hright₂ hnew hcut
  rw [hrange₁] at hrange₂
  refine ⟨s₂, sep, run₂, fun k hk => ?_, ?_, hsep, hlevel₂, hrange₂, hsize₂, hright₂, hnew,
    hcut.2 hright₁⟩
  · rw [hcontents₂, Function.update_of_ne (by omega)]
    exact (hcontents₁ k).2 ⟨rfl, by omega⟩
  · rw [hcontents₂, Function.update_self]

/-- After any calls, with any leaves in the cache, and with enough fuel, `search` returns the record id
of the last insertion of a key that was not deleted since, and nothing for other keys. Insertions of
further keys and deletions complete, but that `delete_entry` asserts the page of a record id. -/
theorem search_returns_contents (run : Run (Store.step ORDER) FreshKeys start s) :
    ∃ bound, ∀ fuel, bound ≤ fuel →
      (∀ key page, s.index.key2leaf key = some page → s.index.level page = some 0) ∧
      (∀ cache : Nat → Option Int,
        (∀ key page, cache key = some page → s.index.level page = some 0) →
        ∀ key, ∃ index, ({ s.index with key2leaf := cache } : Index).search fuel key =
          .next (index, s.contents key)) ∧
      (∀ key value, s.contents key = none →
        ∃ s', s.step ORDER (.insertEntry fuel key value) = .next s') ∧
      ∀ key, (∃ s', s.step ORDER (.deleteEntry fuel key) = .next s') ∨
        ∃ rid, s.contents key = some rid ∧ rid.pageNo = -1 := by
  have h := Ok.of_run run
  obtain ⟨L, hL⟩ := h.height
  refine ⟨L + 1, fun fuel hfuel => ⟨h.cache, ?_, ?_, ?_⟩⟩
  · intro cache hcache key
    obtain ⟨index, hrun, -⟩ := (Index.Ok.withCache h cache hcache).search_spec hL hfuel key
    exact ⟨index, hrun⟩
  · intro key value hkey
    obtain ⟨index, leaf, hrun, -⟩ := Index.Ok.insertEntry_spec ORDER_ge h hL hfuel value hkey
    refine ⟨⟨index, Function.update s.contents key (some value)⟩, ?_⟩
    simp only [step, hrun, next_bind, pure_def]
  · intro key
    rcases Index.Ok.deleteEntry_spec h hL hfuel key with ⟨rid, hrid, hpage, -⟩ | ⟨index, hrun, -⟩
    · exact .inr ⟨rid, hrid, hpage⟩
    · refine .inl ⟨⟨index, Function.update s.contents key none⟩, ?_⟩
      simp only [step, hrun, next_bind, pure_def]

/-- The last of 253 keys, which have split the root, is found, and no longer found once it is
deleted. -/
theorem search_returns_contents_deleted : ∃ s s' fuel fuel' index index',
    Run (Store.step ORDER) FreshKeys start s ∧ (s.index.pages 2).rightSibling = 3 ∧
    s.index.search fuel 1252 = .next (index, some ⟨1, 0⟩) ∧
    s.step ORDER (.deleteEntry fuel 1252) = .next s' ∧
    s'.index.search fuel' 1252 = .next (index', none) := by
  obtain ⟨s, -, run, -, hlast, -, -, -, -, hright, -⟩ := ascending_keys
  obtain ⟨fuel, hfuel⟩ := search_returns_contents run
  obtain ⟨hcache, hsearch, -, hdelete⟩ := hfuel fuel (Nat.le_refl fuel)
  obtain ⟨index, hfound⟩ := hsearch s.index.key2leaf hcache 1252
  rw [hlast] at hfound
  rcases hdelete 1252 with ⟨s', hs'⟩ | ⟨rid, hrid, hpage⟩
  · have hok : s.FreshKeys (.deleteEntry fuel 1252) := trivial
    have hgone : s'.contents 1252 = none := by
      rw [step_contents hok hs', Action.after, Function.update_self]
    obtain ⟨fuel', hfuel'⟩ := search_returns_contents (run.step hok hs')
    obtain ⟨hcache', hsearch', -⟩ := hfuel' fuel' (Nat.le_refl fuel')
    obtain ⟨index', hnone⟩ := hsearch' s'.index.key2leaf hcache' 1252
    rw [hgone] at hnone
    exact ⟨s, s', fuel, fuel', index, index', run, hright, hfound, hs', hnone⟩
  · obtain rfl := Option.some.inj (hlast.symm.trans hrid)
    cases hpage

end Store

end BLink
