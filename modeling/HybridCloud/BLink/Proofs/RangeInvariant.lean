import HybridCloud.BLink.Proofs.Runs

/-!
# High keys and right siblings

`split` gives the new node the right sibling of the old one, but not its high key: a node that was
split off in the middle of a level has none, until it is split itself.
-/

namespace BLink

open Outcome Node Function

namespace Index

variable {s : Index} {m : Nat → Option Rid}

/-- What the high key of a node should say. -/
structure RangeOk (s : Index) (p : Int) : Prop where
  right : (s.pages p).rightSibling ≠ INVALID_PAGE_ID → (s.pages p).hasHighKey = true ∧
    (s.range (s.pages p).rightSibling).lo = some (s.pages p).highKey ∧
    ∀ x ∈ (s.pages p).pairs, x.1 < (s.pages p).highKey
  last : (s.pages p).rightSibling = INVALID_PAGE_ID → (s.pages p).hasHighKey = false
  needToRight : ∀ k, (s.pages p).needToRight k = true ↔ ¬ KeyRange.Below (s.range p).hi k

/-- The range of a child begins at the separator that its parent has for it. -/
def Posted (s : Index) : Prop :=
  ∀ q l, s.level q = some (l + 1) → ∀ e ∈ (s.pages q).pairs.tail, (s.range e.2.pageNo).lo = some e.1

theorem Tree.posted (h : s.Tree s.range m) : s.Posted := by
  intro q l hq e he
  obtain ⟨x, rest, hp, hcover, -⟩ := h.cover hq
  rw [hp] at he
  exact hcover.2.lo_eq (List.mem_map_of_mem he)

theorem Tree.key_lt (h : s.Tree s.range m) {p : Int} {l b : Nat} (hl : s.level p = some l)
    (hhi : (s.range p).hi = some b) : ∀ x ∈ (s.pages p).pairs, x.1 < b := by
  intro x hx
  cases l with
  | zero => exact ((h.leaf_spec hl).2.2.1 x hx).2 b hhi
  | succ l =>
    obtain ⟨y, rest, hp, hfirst, hcover, hlev⟩ := (h.node p _ hl).entries.inner l rfl
    rw [hp] at hx
    rcases List.mem_cons.1 hx with rfl | hmem
    · obtain ⟨k, hk⟩ := (h.node p _ hl).nonempty
      have hlt := hk.2 b hhi
      rw [hfirst]
      exact Nat.lt_of_le_of_lt (Nat.zero_le k) hlt
    · refine hcover.2.key_below ?_ (List.mem_map_of_mem hmem) b hhi
      intro w hw
      obtain ⟨e, he, rfl⟩ := List.mem_map.1 hw
      exact h.seen_nonempty _ l (hlev e (by simp [hp, he]))

/-- A high key is missing at the nodes that were split off in the middle of a level. -/
theorem Tree.rangeOk_iff (h : s.Tree s.range m) {p : Int} {l : Nat} (hl : s.level p = some l) :
    s.RangeOk p ↔ s.cut p = false := by
  have hnode := h.node p l hl
  rcases hnode.sibling with ⟨hlast, hhi, hhigh, hcut⟩ | ⟨hsib, -, b, hhi, hlo, hiff⟩
  · refine ⟨fun _ => hcut, fun _ => ⟨fun hne => absurd hlast hne, fun _ => hhigh, ?_⟩⟩
    intro k
    simp [Node.needToRight, hhigh, hhi]
  · constructor
    · intro hok
      exact hiff.1 (hok.right hsib).1
    · intro hcut
      have hhigh := hiff.2 hcut
      have hkey : (s.pages p).highKey = b :=
        Option.some.inj ((hnode.high hhigh).symm.trans hhi)
      refine ⟨fun _ => ⟨hhigh, ?_, ?_⟩, fun hlast => absurd hlast hsib, ?_⟩
      · rw [hlo, hkey]
      · rw [hkey]
        exact h.key_lt hl hhi
      · intro k
        simp [Node.needToRight, hhigh, hhi, hsib, hkey]

end Index

namespace Store

variable {s : Store}

/-- In every state that is reached, a node is as it should be exactly if it was not split off a node
with a right sibling, or was split again since then. -/
theorem high_key_iff (run : Run (Store.step ORDER) (fun _ _ => True) start s) :
    s.index.Posted ∧
      ∀ p l, s.index.level p = some l → (s.index.RangeOk p ↔ s.index.cut p = false) := by
  obtain ⟨m, h⟩ := index_ok_of_run run
  exact ⟨h.tree.posted, fun p l hl => h.tree.rangeOk_iff hl⟩

/-- After the first split the new leaf is as it should be. -/
theorem high_key_iff_ascending : ∃ s, Run (Store.step ORDER) (fun _ _ => True) start s ∧
    (s.index.pages 2).rightSibling = 3 ∧ s.index.RangeOk 3 := by
  obtain ⟨s, -, run, -, -, -, -, -, -, hright, hlevel, hcut⟩ := ascending_keys
  have run := run.mono fun _ _ _ => trivial
  exact ⟨s, run, hright, ((high_key_iff run).2 3 0 hlevel).2 hcut⟩

/-- 253 keys split the root, and 127 keys below them split its left half again: the leaf between the
two halves has a right sibling and no high key. -/
theorem high_key_missing : ∃ s p, Run (Store.step ORDER) (fun _ _ => True) start s ∧
    s.index.level p = some 0 ∧ (s.index.pages p).rightSibling ≠ INVALID_PAGE_ID ∧
    (s.index.pages p).hasHighKey = false ∧ ¬ s.index.RangeOk p := by
  obtain ⟨s₁, sep, run₁, hlow, -, hsep, hlevel₁, hrange₁, hsize₁, hright₁, -⟩ := ascending_keys
  have hbelow : ∀ k, k < 1000 → (s₁.index.range 2).Has k := by
    intro k hk
    have hle : 1000 ≤ sep := Nat.le_of_not_lt fun hlt => hsep (hlow sep hlt)
    rw [hrange₁, KeyRange.has_below_iff]
    exact ⟨KeyRange.from_none k, by omega⟩
  obtain ⟨s₂, run₂, hlevel₂, hrange₂, -, hsize₂, hright₂, hcontents₂⟩ :=
    fill 2 126 0 run₁ hlevel₁ (by rw [hsize₁]; decide)
      fun k _ hk => ⟨hlow k (by omega), hbelow k (by omega)⟩
  obtain ⟨s₃, -, run₃, -, -, -, -, -, -, hlevel₃, hcut₃⟩ :=
    insert_last 2 126 run₂ (by rw [hlevel₂]; exact hlevel₁)
      (by rw [hsize₂, hsize₁]; decide) ((hcontents₂ _).2 ⟨hlow _ (by omega), by omega⟩)
      (by rw [hrange₂]; exact hbelow _ (by omega))
  have htree := (Ok.of_run run₃).tree
  have hcut : s₃.index.cut s₂.index.nextPage ≠ false := by
    rw [ne_eq, hcut₃, hright₂, hright₁]
    decide
  refine ⟨s₃, s₂.index.nextPage, run₃.mono fun _ _ _ => trivial, hlevel₃, ?_, ?_, ?_⟩
  · rcases (htree.node _ 0 hlevel₃).sibling with ⟨-, -, -, hfalse⟩ | ⟨hsib, -⟩
    · exact absurd hfalse hcut
    · exact hsib
  · rcases (htree.node _ 0 hlevel₃).sibling with ⟨-, -, hhigh, -⟩ | ⟨-, -, -, -, -, hiff⟩
    · exact hhigh
    · exact Bool.eq_false_iff.2 fun htrue => hcut (hiff.1 htrue)
  · rw [htree.rangeOk_iff hlevel₃]
    exact hcut

end Store

end BLink
