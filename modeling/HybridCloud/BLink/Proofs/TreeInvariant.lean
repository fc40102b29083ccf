import HybridCloud.BLink.Index
import HybridCloud.BLink.Proofs.NodeProofs

/-!
# The invariant of the B-link tree

Every node has a level and a range of keys. The children of an internal node, one level below it,
share its range, and nodes of one level have no key in common.

Between a split and the entry of the new node in the parent, the parent still takes the two halves
for one node. `Tree s seen m` therefore has, next to the ranges of the nodes, the ranges `seen` from
their parents; `m` is the map that the tree stands for.
-/

namespace BLink

open Function

namespace Node

/-- The children of an internal node. -/
def kids (n : Node) : List Int := n.pairs.map fun e => e.2.pageNo

/-- The children after the first one, with their keys. -/
def others (rest : List (Nat × Rid)) : List (Nat × Int) := rest.map fun e => (e.1, e.2.pageNo)

/-- Nodes that have the same entries and the same right sibling. -/
structure SameEntries (n n' : Node) : Prop where
  isLeaf : n'.isLeaf = n.isLeaf
  pairs : n'.pairs = n.pairs
  highKey : n'.highKey = n.highKey
  hasHighKey : n'.hasHighKey = n.hasHighKey
  rightSibling : n'.rightSibling = n.rightSibling

theorem SameEntries.refl (n : Node) : SameEntries n n := ⟨rfl, rfl, rfl, rfl, rfl⟩

theorem SameEntries.trans {n₁ n₂ n₃ : Node} (h : SameEntries n₁ n₂) (h' : SameEntries n₂ n₃) :
    SameEntries n₁ n₃ :=
  ⟨h'.isLeaf.trans h.isLeaf, h'.pairs.trans h.pairs, h'.highKey.trans h.highKey,
    h'.hasHighKey.trans h.hasHighKey, h'.rightSibling.trans h.rightSibling⟩

/-- Nodes that differ in their links to other leaves only. -/
structure SameNode (n n' : Node) : Prop extends SameEntries n n' where
  isRoot : n'.isRoot = n.isRoot

theorem SameNode.refl (n : Node) : SameNode n n := ⟨.refl n, rfl⟩

end Node

namespace Index

open Node

/-- The entries of a node of level `l` whose range is `r`: those of a leaf are the keys of `m` in
the range, and the children of an internal node cover it. -/
structure EntriesOk (seen : Int → KeyRange Nat) (level : Int → Option Nat) (m : Nat → Option Rid)
    (pairs : List (Nat × Rid)) (r : KeyRange Nat) (l : Nat) : Prop where
  leaf : l = 0 → Ascending pairs ∧ (∀ x ∈ pairs, r.Has x.1) ∧ ∀ k, r.Has k → find pairs k = m k
  inner : ∀ l', l = l' + 1 → ∃ x rest, pairs = x :: rest ∧ x.1 = NEG_KEY ∧
    KeyRange.Cover seen r.lo x.2.pageNo (others rest) r.hi ∧
    ∀ e ∈ pairs, level e.2.pageNo = some l'

/-- The last node of a level has no end; any other one ends where its right sibling begins. -/
def SiblingOk (s : Index) (p : Int) (l : Nat) : Prop :=
  ((s.pages p).rightSibling = INVALID_PAGE_ID ∧ (s.range p).hi = none ∧
    (s.pages p).hasHighKey = false ∧ s.cut p = false) ∨
  ((s.pages p).rightSibling ≠ INVALID_PAGE_ID ∧ s.level (s.pages p).rightSibling = some l ∧
    ∃ b, (s.range p).hi = some b ∧ (s.range (s.pages p).rightSibling).lo = some b ∧
      ((s.pages p).hasHighKey = true ↔ s.cut p = false))

/-- What holds at the node `p` of level `l`. -/
structure NodeOk (s : Index) (seen : Int → KeyRange Nat) (m : Nat → Option Rid) (p : Int) (l : Nat) :
    Prop where
  leaf_iff : (s.pages p).isLeaf = true ↔ l = 0
  nonempty : (s.range p).NonEmpty
  high : (s.pages p).hasHighKey = true → (s.range p).hi = some (s.pages p).highKey
  entries : EntriesOk seen s.level m (s.pages p).pairs (s.range p) l
  sibling : s.SiblingOk p l

/-- The nodes make up a tree that stands for `m`. -/
structure Tree (s : Index) (seen : Int → KeyRange Nat) (m : Nat → Option Rid) : Prop where
  node : ∀ p l, s.level p = some l → s.NodeOk seen m p l
  placed : ∀ p l, s.level p = some l → 2 ≤ p ∧ p < s.nextPage
  top : ∃ L, s.level s.rootPageId = some L ∧ ∀ p l, s.level p = some l → l ≤ L
  all : seen s.rootPageId = KeyRange.all
  roots : ∀ p l, s.level p = some l → ((s.pages p).isRoot = true ↔ p = s.rootPageId)
  disjoint : ∀ p q l k, s.level p = some l → s.level q = some l → (s.range p).Has k →
    (s.range q).Has k → p = q
  seen_nonempty : ∀ p l, s.level p = some l → (seen p).NonEmpty

variable {s s' : Index} {seen : Int → KeyRange Nat} {m : Nat → Option Rid}

variable {seen' : Int → KeyRange Nat} {m' : Nat → Option Rid} {pairs : List (Nat × Rid)} {l : Nat}

/-- Whether an internal node is right depends on the ranges and levels of its children only. -/
theorem EntriesOk.congr {level level' : Int → Option Nat} {r : KeyRange Nat}
    (h : EntriesOk seen level m pairs r l) (hm : l = 0 → ∀ k, r.Has k → m' k = m k)
    (hseen : ∀ e ∈ pairs, ∀ l', l = l' + 1 → level e.2.pageNo = some l' →
      seen' e.2.pageNo = seen e.2.pageNo)
    (hlevel : ∀ c l', level c = some l' → level' c = some l') :
    EntriesOk seen' level' m' pairs r l := by
  constructor
  · intro hl
    obtain ⟨hasc, hin, hfind⟩ := h.leaf hl
    refine ⟨hasc, hin, ?_⟩
    intro k hk
    rw [hfind k hk, hm hl k hk]
  · intro l' hl
    obtain ⟨x, rest, hp, hfirst, hcover, hlev⟩ := h.inner l' hl
    refine ⟨x, rest, hp, hfirst, hcover.congr ?_ ?_, ?_⟩
    · have hx : x ∈ pairs := by simp [hp]
      exact hseen x hx l' hl (hlev x hx)
    · intro y hy
      obtain ⟨e, he, rfl⟩ := List.mem_map.1 hy
      have he' : e ∈ pairs := by simp [hp, he]
      exact hseen e he' l' hl (hlev e he')
    · intro e he
      exact hlevel _ l' (hlev e he)

variable {q : Int}

/-- A node stays right when others change: its own entries, its range and what it needs of others are
as before. -/
theorem NodeOk.frame (h : s.NodeOk seen m q l) (hsame : SameEntries (s.pages q) (s'.pages q))
    (hrange : s'.range q = s.range q) (hcut : s'.cut q = s.cut q)
    (hlevel : ∀ x l, s.level x = some l → s'.level x = some l)
    (hlo : ∀ x l, s.level x = some l → (s'.range x).lo = (s.range x).lo)
    (hm : l = 0 → ∀ k, (s.range q).Has k → m' k = m k)
    (hseen : ∀ e ∈ (s.pages q).pairs, ∀ l', l = l' + 1 → s.level e.2.pageNo = some l' →
      seen' e.2.pageNo = seen e.2.pageNo) :
    s'.NodeOk seen' m' q l := by
  constructor
  · rw [hsame.isLeaf]
    exact h.leaf_iff
  · rw [hrange]
    exact h.nonempty
  · rw [hsame.hasHighKey, hsame.highKey, hrange]
    exact h.high
  · rw [hsame.pairs, hrange]
    exact h.entries.congr hm hseen hlevel
  · unfold SiblingOk
    rw [hsame.rightSibling, hsame.hasHighKey, hrange, hcut]
    rcases h.sibling with hlast | ⟨hne, hlev, b, hhi, hlo', hh⟩
    · exact .inl hlast
    · exact .inr ⟨hne, hlevel _ l hlev, b, hhi, (hlo _ l hlev).trans hlo', hh⟩

theorem NodeOk.setPairs (h : s.NodeOk seen m q l)
    (hentries : EntriesOk seen' s.level m' pairs (s.range q) l) :
    (s.setPage q { s.pages q with pairs := pairs }).NodeOk seen' m' q l := by
  constructor
  · simpa only [setPage, update_self] using h.leaf_iff
  · exact h.nonempty
  · simpa only [setPage, update_self] using h.high
  · simpa only [setPage, update_self] using hentries
  · simpa only [SiblingOk, setPage, update_self] using h.sibling

variable {c : Int}

theorem mem_kids_iff {n : Node} {x : Nat × Rid} {rest : List (Nat × Rid)}
    (hp : n.pairs = x :: rest) : c ∈ n.kids ↔ c ∈ x.2.pageNo :: (others rest).map Prod.snd := by
  simp [kids, others, hp]

namespace Tree

variable {p : Int}

theorem cover (h : s.Tree seen m) (hl : s.level p = some (l + 1)) :
    ∃ x rest, (s.pages p).pairs = x :: rest ∧
      KeyRange.Cover seen (s.range p).lo x.2.pageNo (others rest) (s.range p).hi ∧
      (seen x.2.pageNo).NonEmpty ∧ (∀ y ∈ others rest, (seen y.2).NonEmpty) ∧
      ∀ c ∈ (s.pages p).kids, s.level c = some l := by
  obtain ⟨x, rest, hp, -, hcover, hlev⟩ := (h.node p (l + 1) hl).entries.inner l rfl
  refine ⟨x, rest, hp, hcover, ?_, ?_, ?_⟩
  · exact h.seen_nonempty _ l (hlev x (by simp [hp]))
  · intro y hy
    obtain ⟨e, he, rfl⟩ := List.mem_map.1 hy
    exact h.seen_nonempty _ l (hlev e (by simp [hp, he]))
  · intro c hc
    obtain ⟨e, he, rfl⟩ := List.mem_map.1 hc
    exact hlev e he

variable {k : Nat}

section

variable (h : s.Tree seen m)
include h

/-- What a parent takes for the range of a child is in its own range. -/
theorem has_of_kid (hl : s.level p = some (l + 1)) (hc : c ∈ (s.pages p).kids)
    (hk : (seen c).Has k) : (s.range p).Has k := by
  obtain ⟨x, rest, hp, hcover, hx, hrest, -⟩ := h.cover hl
  exact hcover.has_of_child hx hrest ((mem_kids_iff hp).1 hc) hk

theorem parent_unique {l' : Nat} (hp : s.level p = some (l + 1))
    (hq : s.level q = some (l' + 1)) (hcp : c ∈ (s.pages p).kids) (hcq : c ∈ (s.pages q).kids) :
    p = q := by
  obtain ⟨-, -, -, -, -, -, hlp⟩ := h.cover hp
  obtain ⟨-, -, -, -, -, -, hlq⟩ := h.cover hq
  have hll : l = l' := by
    have hc := hlp c hcp
    rw [hlq c hcq] at hc
    exact (Option.some.inj hc).symm
  subst hll
  obtain ⟨k, hk⟩ := h.seen_nonempty c l (hlp c hcp)
  exact h.disjoint p q (l + 1) k hp hq (h.has_of_kid hp hcp hk) (h.has_of_kid hq hcq hk)

theorem kids_nodup (hl : s.level p = some (l + 1)) :
    (s.pages p).kids.Nodup := by
  obtain ⟨x, rest, hp, hcover, hx, hrest, -⟩ := h.cover hl
  have hnd := hcover.nodup hx hrest
  simpa [kids, others, hp, comp_def] using hnd

/-- A key of the node is in the range that is seen of the child which the node chooses for it. -/
theorem childFor_has (hl : s.level p = some (l + 1)) (hk : (s.range p).Has k) :
    (s.pages p).childFor k ∈ (s.pages p).kids ∧ (seen ((s.pages p).childFor k)).Has k := by
  obtain ⟨x, rest, hp, hcover, hx, hrest, -⟩ := h.cover hl
  have hsorted : Ascending rest := by
    have hs := hcover.2.sorted hrest
    unfold others at hs
    rw [List.pairwise_map] at hs
    exact hs
  obtain ⟨A, B, hAB, hA, hB, hchild⟩ := childFor_spec hp hsorted k
  have hlast : (A.map fun y => y.2.pageNo).getLastD x.2.pageNo =
      ((others A).map Prod.snd).getLastD x.2.pageNo := by
    simp [others, comp_def]
  have hcover' : KeyRange.Cover seen (s.range p).lo x.2.pageNo (others A ++ others B)
      (s.range p).hi := by
    rw [hAB] at hcover
    simpa [others] using hcover
  have hroute := hcover'.route hk.1 (fun y hy => by
      obtain ⟨e, he, rfl⟩ := List.mem_map.1 hy
      exact hA e he) (by
      cases B with
      | nil => exact hk.2
      | cons e B =>
        intro b hb
        cases hb
        exact hB e List.mem_cons_self)
  rw [hchild, hlast]
  refine ⟨?_, hroute⟩
  rw [mem_kids_iff hp, hAB]
  have hmem : ((others A).map Prod.snd).getLastD x.2.pageNo ∈
      x.2.pageNo :: (others A).map Prod.snd := List.getLastD_mem_cons
  rcases List.mem_cons.1 hmem with heq | hmem'
  · exact List.mem_cons.2 (.inl heq)
  · refine List.mem_cons_of_mem _ ?_
    simp only [others, List.map_append, List.mem_append] at hmem' ⊢
    exact .inl hmem'

theorem needToRight_eq_false (hl : s.level p = some l) (hk : (s.range p).Has k) :
    (s.pages p).needToRight k = false := by
  unfold Node.needToRight
  cases hh : (s.pages p).hasHighKey with
  | false => rfl
  | true =>
    have hhi := (h.node p l hl).high hh
    have hlt : k < (s.pages p).highKey := hk.2 _ hhi
    have hnot : ¬ (s.pages p).highKey ≤ k := by omega
    simp [hnot]

theorem setPairs (hq : s.level q = some l)
    (hentries : EntriesOk seen' s.level m' pairs (s.range q) l)
    (hm : ∀ k, m' k ≠ m k → l = 0 ∧ (s.range q).Has k)
    (hseen : ∀ p l' c, p ≠ q → s.level p = some (l' + 1) → c ∈ (s.pages p).kids → seen' c = seen c)
    (hall : seen' s.rootPageId = KeyRange.all)
    (hne : ∀ c l', s.level c = some l' → (seen' c).NonEmpty) :
    (s.setPage q { s.pages q with pairs := pairs }).Tree seen' m' := by
  have hpages : ∀ p, p ≠ q →
      (s.setPage q { s.pages q with pairs := pairs }).pages p = s.pages p :=
    fun p hp => update_of_ne hp _ _
  constructor
  · intro p l' hp
    have hp' : s.level p = some l' := hp
    by_cases hpq : p = q
    · subst hpq
      rw [hq] at hp'
      cases hp'
      exact (h.node p l hq).setPairs hentries
    · refine (h.node p l' hp').frame ?_ rfl rfl (fun _ _ hx => hx) (fun _ _ _ => rfl) ?_ ?_
      · rw [hpages p hpq]
        exact SameEntries.refl _
      · intro hl k hk
        by_contra hne'
        obtain ⟨hl', hk'⟩ := hm k hne'
        subst hl hl'
        exact hpq (h.disjoint p q 0 k hp' hq hk hk')
      · intro e he l'' hl _
        subst hl
        exact hseen p l'' _ hpq hp' (List.mem_map_of_mem he)
  · exact h.placed
  · exact h.top
  · exact hall
  · intro p l' hp
    by_cases hpq : p = q
    · subst hpq
      simpa only [setPage, update_self] using h.roots p l' hp
    · rw [hpages p hpq]
      exact h.roots p l' hp
  · exact h.disjoint
  · exact hne

end

end Tree

end Index

end BLink
