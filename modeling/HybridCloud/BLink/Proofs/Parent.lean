import HybridCloud.BLink.Proofs.Split

/-!
# Entering a new node in its parent

A split is completed by an entry for the new node, after the entry of the old one, in the parent; or
by a new root above the two.
-/

namespace BLink

open Outcome Node Function

namespace Index

variable {s s' : Index} {seen : Int → KeyRange Nat} {m : Nat → Option Rid}
  {old new : Int} {sep l : Nat}

theorem EntriesOk.split_child {range : Int → KeyRange Nat} {level : Int → Option Nat}
    {A B : List (Nat × Rid)} {x : Nat × Rid} {r : KeyRange Nat}
    (h : EntriesOk seen level m (A ++ x :: B) r (l + 1))
    (hseen : seen = update range x.2.pageNo
      ⟨(range x.2.pageNo).lo, (range new).hi⟩)
    (hA : ∀ e ∈ A, e.2.pageNo ≠ x.2.pageNo) (hB : ∀ e ∈ B, e.2.pageNo ≠ x.2.pageNo)
    (hhi : (range x.2.pageNo).hi = some sep) (hlo : (range new).lo = some sep)
    (hnew : level new = some l) :
    EntriesOk range level m (A ++ x :: (sep, ⟨new, -1⟩) :: B) r (l + 1) := by
  obtain ⟨y, rest, hp, hfirst, hcover, hlev⟩ := h.inner l rfl
  have hx : seen x.2.pageNo = ⟨(range x.2.pageNo).lo, (range new).hi⟩ := by
    rw [hseen, update_self]
  have hkeep : ∀ {C : List (Nat × Rid)}, (∀ e ∈ C, e.2.pageNo ≠ x.2.pageNo) →
      ∀ w ∈ others C, range w.2 = seen w.2 := by
    intro C hC w hw
    obtain ⟨e, he, rfl⟩ := List.mem_map.1 hw
    rw [hseen, update_of_ne (hC e he)]
  have hlev' : ∀ e ∈ A ++ x :: (sep, ⟨new, -1⟩) :: B, level e.2.pageNo = some l := by
    intro e he
    rcases List.mem_append.1 he with hmem | hmem
    · exact hlev e (List.mem_append_left _ hmem)
    · rcases List.mem_cons.1 hmem with rfl | hmem
      · exact hlev e (List.mem_append_right _ List.mem_cons_self)
      · rcases List.mem_cons.1 hmem with rfl | hmem
        · exact hnew
        · exact hlev e (List.mem_append_right _ (List.mem_cons_of_mem _ hmem))
  constructor
  · intro hl
    cases hl
  · intro l' hl
    cases hl
    cases A with
    | nil =>
      obtain ⟨rfl, rfl⟩ := List.cons.inj hp
      exact ⟨x, (sep, ⟨new, -1⟩) :: B, rfl, hfirst, hcover.split_first hx hhi hlo (hkeep hB), hlev'⟩
    | cons z A =>
      obtain ⟨rfl, rfl⟩ := List.cons.inj hp
      refine ⟨z, A ++ x :: (sep, ⟨new, -1⟩) :: B, rfl, hfirst, ?_, hlev'⟩
      have hcover' : KeyRange.Cover seen r.lo z.2.pageNo
          (others A ++ (x.1, x.2.pageNo) :: others B) r.hi := by
        simpa [others] using hcover
      have hz : range z.2.pageNo = seen z.2.pageNo := by
        rw [hseen, update_of_ne (hA z List.mem_cons_self)]
      have hsplit := hcover'.split_other hx hhi hlo hz
        (hkeep fun e he => hA e (List.mem_cons_of_mem _ he)) (hkeep hB)
      simpa [others] using hsplit

variable {q : Int}

theorem Tree.kid_entry (h : s.Tree seen m) {c : Int} (hq : s.level q = some (l + 1))
    (hc : c ∈ (s.pages q).kids) : ∃ A x B, (s.pages q).pairs = A ++ x :: B ∧ x.2.pageNo = c ∧
      (∀ e ∈ A, e.2.pageNo ≠ c) ∧ ∀ e ∈ B, e.2.pageNo ≠ c := by
  obtain ⟨x, hx, hxc⟩ := List.mem_map.1 hc
  obtain ⟨A, B, hp⟩ := List.append_of_mem hx
  have hnodup := h.kids_nodup hq
  unfold kids at hnodup
  rw [hp, List.map_append, List.map_cons] at hnodup
  obtain ⟨-, hcons, hcross⟩ := List.nodup_append.1 hnodup
  refine ⟨A, x, B, hp, hxc, ?_, ?_⟩
  · intro e he
    have hne := hcross _ (List.mem_map_of_mem he) x.2.pageNo List.mem_cons_self
    rwa [hxc] at hne
  · intro e he heq
    refine (List.nodup_cons.1 hcons).1 ?_
    rw [hxc, ← heq]
    exact List.mem_map_of_mem he

namespace Pending

section

variable (h : s.Pending m old new sep l)
include h

theorem ne_root (hq : s.level q = some (l + 1)) :
    old ≠ s.rootPageId := by
  intro heq
  obtain ⟨L, hL, hmax⟩ := h.tree.top
  have hle := hmax q _ hq
  rw [← heq, h.old_level] at hL
  cases hL
  omega

theorem insert_child (hq : s.level q = some (l + 1))
    (hkid : old ∈ (s.pages q).kids) :
    ∃ pairs, (s.pages q).insertPairs (s.posAfter q old) [(sep, ⟨new, -1⟩)] =
        .next { s.pages q with pairs := pairs } ∧
      (s.pages q).findChild old ≠ none ∧ pairs.length = (s.pages q).size + 1 ∧
      (∀ e ∈ (s.pages q).pairs, e ∈ pairs) ∧
      (s.setPage q { s.pages q with pairs := pairs }).Tree s.range m := by
  obtain ⟨A, x, B, hp, hx, hA, hB⟩ := h.tree.kid_entry hq hkid
  have hfind : (s.pages q).findChild old = some A.length := findChild_eq_some hp hx hA
  have hpos : s.posAfter q old = (A ++ [x]).length := by
    unfold posAfter
    rw [hfind]
    simp
  have hcut : (s.pages q).pairs = (A ++ [x]) ++ B := by
    rw [hp]
    simp
  refine ⟨A ++ x :: (sep, ⟨new, -1⟩) :: B, ?_, ?_, ?_, ?_, ?_⟩
  · unfold insertPairs
    have hle : s.posAfter q old ≤ (s.pages q).size := by
      rw [hpos, size, hcut]
      simp
    rw [cassert_bind hle, pure_def, hpos, hcut, List.take_left, List.drop_left]
    simp
  · rw [hfind]
    simp
  · rw [size, hp]
    simp only [List.length_append, List.length_cons]
    omega
  · intro e he
    rw [hp] at he
    simp only [List.mem_append, List.mem_cons] at he ⊢
    tauto
  · have hentries := (h.tree.node q (l + 1) hq).entries
    rw [hp] at hentries
    subst hx
    refine h.tree.setPairs hq (hentries.split_child rfl hA hB h.old_hi h.new_lo h.new_level)
      (fun k hk => absurd rfl hk) ?_ ?_ ?_
    · intro p l' c hpq hlev hc
      refine (update_of_ne ?_ _ _).symm
      rintro rfl
      exact hpq (h.tree.parent_unique hlev hq hc hkid)
    · have hall := h.tree.all
      rwa [update_of_ne (h.ne_root hq).symm] at hall
    · intro c l' hc
      exact (h.tree.node c l' hc).nonempty

theorem growRoot_pages :
    (s.growRoot old sep new).pages s.nextPage = newRoot old sep new ∧
      ∀ q, q ≠ s.nextPage → SameEntries (s.pages q) ((s.growRoot old sep new).pages q) ∧
        ((s.growRoot old sep new).pages q).isRoot =
          if q = old ∨ q = new then false else (s.pages q).isRoot := by
  have hold : old ≠ s.nextPage := h.tree.ne_nextPage h.old_level
  have hnew : new ≠ s.nextPage := h.tree.ne_nextPage h.new_level
  constructor
  · simp only [growRoot, setPage, update_of_ne hold.symm, update_of_ne hnew.symm,
      update_self]
  · intro q hq
    by_cases hqn : q = new
    · subst hqn
      simp only [growRoot, setPage, update_self, update_of_ne h.ne.symm,
        update_of_ne hq, or_true, if_true, and_true]
      exact ⟨rfl, rfl, rfl, rfl, rfl⟩
    · by_cases hqo : q = old
      · subst hqo
        simp only [growRoot, setPage, update_self, update_of_ne hqn,
          update_of_ne hq, true_or, if_true, and_true]
        exact ⟨rfl, rfl, rfl, rfl, rfl⟩
      · simp only [growRoot, setPage, update_of_ne hqn, update_of_ne hqo,
          update_of_ne hq, hqo, hqn, or_self, if_false, and_true]
        exact SameEntries.refl _

theorem root_split (hroot : old = s.rootPageId) :
    s.range old = ⟨none, some sep⟩ ∧ s.range new = ⟨some sep, none⟩ ∧
      ∀ p l', s.level p = some l' → l' ≤ l := by
  have hall := h.tree.all
  rw [← hroot, update_self] at hall
  obtain ⟨hlo, hhi⟩ := KeyRange.mk.injEq .. ▸ hall
  refine ⟨?_, ?_, ?_⟩
  · rw [← hlo, ← h.old_hi]
  · rw [← hhi, ← h.new_lo]
  · obtain ⟨L, hL, hmax⟩ := h.tree.top
    rw [← hroot, h.old_level] at hL
    cases hL
    exact hmax

theorem growRoot_cases {l' : Nat}
    (hq : (s.growRoot old sep new).level q = some l') :
    (q = s.nextPage ∧ l' = l + 1) ∨ (q ≠ s.nextPage ∧ s.level q = some l') := by
  have hlevel : (s.growRoot old sep new).level =
      update s.level s.nextPage ((s.level old).map (· + 1)) := rfl
  rw [hlevel] at hq
  by_cases hqn : q = s.nextPage
  · subst hqn
    rw [update_self, h.old_level] at hq
    exact .inl ⟨rfl, (Option.some.inj hq).symm⟩
  · rw [update_of_ne hqn] at hq
    exact .inr ⟨hqn, hq⟩

theorem growRoot_frame {l' : Nat} (hq : s.level q = some l') :
    (s.growRoot old sep new).level q = some l' ∧
      (s.growRoot old sep new).range q = s.range q ∧ (s.growRoot old sep new).cut q = s.cut q := by
  have hne : q ≠ s.nextPage := h.tree.ne_nextPage hq
  exact ⟨(update_of_ne hne _ _).trans hq, update_of_ne hne _ _,
    update_of_ne hne _ _⟩

theorem growRoot_root (hroot : old = s.rootPageId) :
    (s.growRoot old sep new).NodeOk (s.growRoot old sep new).range m s.nextPage (l + 1) := by
  obtain ⟨hold, hnew, -⟩ := h.root_split hroot
  obtain ⟨hlevOld, hrangeOld, -⟩ := h.growRoot_frame h.old_level
  obtain ⟨hlevNew, hrangeNew, -⟩ := h.growRoot_frame h.new_level
  have hrange : (s.growRoot old sep new).range s.nextPage = KeyRange.all :=
    update_self _ _ _
  have hpage := h.growRoot_pages.1
  constructor
  · rw [hpage]
    simp [newRoot, zero]
  · rw [hrange]
    exact ⟨0, KeyRange.all_has 0⟩
  · rw [hpage]
    intro hfalse
    cases hfalse
  · rw [hpage, hrange]
    constructor
    · intro hl
      cases hl
    · intro l' hl
      cases hl
      refine ⟨(NEG_KEY, ⟨old, -1⟩), [(sep, ⟨new, -1⟩)], rfl, rfl, ⟨?_, ?_, trivial⟩, ?_⟩
      · rw [hrangeOld, hold]
        rfl
      · rw [hrangeNew, hnew]
        rfl
      · intro e he
        rcases List.mem_cons.1 he with rfl | hmem
        · exact hlevOld
        · rw [List.mem_singleton.1 hmem]
          exact hlevNew
  · left
    rw [hpage, hrange]
    exact ⟨rfl, rfl, rfl, update_self _ _ _⟩

theorem growRoot_tree (hroot : old = s.rootPageId) :
    (s.growRoot old sep new).Tree (s.growRoot old sep new).range m := by
  obtain ⟨hold, hnew, hmax⟩ := h.root_split hroot
  obtain ⟨-, hothers⟩ := h.growRoot_pages
  have hlevRoot : (s.growRoot old sep new).level s.nextPage = some (l + 1) := by
    show update s.level s.nextPage ((s.level old).map (· + 1)) s.nextPage = _
    rw [update_self, h.old_level]
    rfl
  have hnode : ∀ q l', (s.growRoot old sep new).level q = some l' →
      (s.growRoot old sep new).NodeOk (s.growRoot old sep new).range m q l' := by
    intro q l' hq
    rcases h.growRoot_cases hq with ⟨rfl, rfl⟩ | ⟨hqn, hq'⟩
    · exact h.growRoot_root hroot
    · obtain ⟨-, hrange, hcut⟩ := h.growRoot_frame hq'
      refine (h.tree.node q l' hq').frame (hothers q hqn).1 hrange hcut
        (fun x l hx => (h.growRoot_frame hx).1)
        (fun x l hx => congrArg KeyRange.lo (h.growRoot_frame hx).2.1) (fun _ _ _ => rfl) ?_
      intro e _ l'' hl'' hlev
      have hne : e.2.pageNo ≠ old := by
        intro heq
        rw [heq, h.old_level] at hlev
        cases hlev
        have := hmax q l' hq'
        omega
      rw [(h.growRoot_frame hlev).2.1, update_of_ne hne]
  constructor
  · exact hnode
  · intro q l' hq
    have hnext : (s.growRoot old sep new).nextPage = s.nextPage + 1 := rfl
    rcases h.growRoot_cases hq with ⟨rfl, -⟩ | ⟨-, hq'⟩
    · have := h.tree.placed old l h.old_level
      omega
    · have := h.tree.placed q l' hq'
      omega
  · refine ⟨l + 1, hlevRoot, ?_⟩
    intro q l' hq
    rcases h.growRoot_cases hq with ⟨-, rfl⟩ | ⟨-, hq'⟩
    · exact Nat.le_refl _
    · have := hmax q l' hq'
      omega
  · exact update_self _ _ _
  · intro q l' hq
    rcases h.growRoot_cases hq with ⟨rfl, -⟩ | ⟨hqn, hq'⟩
    · rw [h.growRoot_pages.1]
      exact ⟨fun _ => rfl, fun _ => rfl⟩
    · have hfalse : ((s.growRoot old sep new).pages q).isRoot = false := by
        rw [(hothers q hqn).2]
        split
        · rfl
        · next hnot =>
          have hne : q ≠ s.rootPageId := by
            intro heq
            exact hnot (.inl (heq.trans hroot.symm))
          exact Bool.eq_false_iff.2 fun htrue => hne ((h.tree.roots q l' hq').1 htrue)
      rw [hfalse]
      exact ⟨fun hc => absurd hc Bool.false_ne_true, fun heq => absurd heq hqn⟩
  · intro q q' l' k hq hq' hk hk'
    rcases h.growRoot_cases hq with ⟨rfl, rfl⟩ | ⟨-, hlev⟩
    · rcases h.growRoot_cases hq' with ⟨rfl, -⟩ | ⟨-, hlev'⟩
      · rfl
      · have := hmax q' _ hlev'
        omega
    · rcases h.growRoot_cases hq' with ⟨rfl, rfl⟩ | ⟨-, hlev'⟩
      · have := hmax q _ hlev
        omega
      · rw [(h.growRoot_frame hlev).2.1] at hk
        rw [(h.growRoot_frame hlev').2.1] at hk'
        exact h.tree.disjoint q q' l' k hlev hlev' hk hk'
  · intro q l' hq
    exact (hnode q l' hq).nonempty

end

end Pending

/-- The nodes of the trace are the ancestors of the node on `p`, on the level `l`. -/
def Above (s : Index) : Nat → Int → List Int → Prop
  | _, p, [] => p = s.rootPageId
  | l, p, q :: trace => s.level q = some (l + 1) ∧ p ∈ (s.pages q).kids ∧ s.Above (l + 1) q trace

variable {trace : List Int}

/-- A trace stays right when the nodes above keep their children. -/
theorem Above.frame {p : Int} (h : s.Above l p trace) (hroot : s'.rootPageId = s.rootPageId)
    (hlevel : ∀ q l', s.level q = some l' → s'.level q = some l')
    (hpairs : ∀ q l', s.level q = some l' → l < l' → (s'.pages q).pairs = (s.pages q).pairs) :
    s'.Above l p trace := by
  induction trace generalizing l p with
  | nil => exact h.trans hroot.symm
  | cons q trace ih =>
    obtain ⟨hq, hkid, habove⟩ := h
    refine ⟨hlevel q _ hq, ?_, ih habove fun r l' hr hl' => hpairs r l' hr (by omega)⟩
    unfold kids
    rw [hpairs q _ hq (Nat.lt_succ_self l)]
    exact hkid

/-- Nodes stay where they are, and the cache is not touched. -/
structure Grows (s s' : Index) : Prop where
  level : ∀ q l, s.level q = some l → s'.level q = some l
  key2leaf : s'.key2leaf = s.key2leaf

theorem Grows.trans {s₁ s₂ s₃ : Index} (h : s₁.Grows s₂) (h' : s₂.Grows s₃) : s₁.Grows s₃ :=
  ⟨fun q l hq => h'.level q l (h.level q l hq), h'.key2leaf.trans h.key2leaf⟩

/-- The leaves are as before, but for their links to other leaves and the mark of the root. -/
def LeavesKept (s s' : Index) : Prop :=
  ∀ q, s.level q = some 0 → SameEntries (s.pages q) (s'.pages q) ∧ s'.range q = s.range q ∧
    s'.cut q = s.cut q

theorem LeavesKept.trans {s₁ s₂ s₃ : Index} (h : s₁.LeavesKept s₂) (hgrow : s₁.Grows s₂)
    (h' : s₂.LeavesKept s₃) : s₁.LeavesKept s₃ := by
  intro q hq
  obtain ⟨hsame, hrange, hcut⟩ := h q hq
  obtain ⟨hsame', hrange', hcut'⟩ := h' q (hgrow.level q 0 hq)
  exact ⟨hsame.trans hsame', hrange'.trans hrange, hcut'.trans hcut⟩

/-- The entries of every node fit in its page, and one more does. -/
def Small (order : Nat) (s : Index) : Prop :=
  ∀ p l, s.level p = some l → (s.pages p).size < order

/-- All nodes but one have room. -/
def SmallBut (order : Nat) (q : Int) (s : Index) : Prop :=
  ∀ p l, s.level p = some l → p ≠ q → (s.pages p).size < order

variable {order : Nat}

theorem Small.setPage (h : s.Small order) (q : Int) (n : Node) :
    (s.setPage q n).SmallBut order q := by
  intro p l hp hpq
  have hpage : (s.setPage q n).pages p = s.pages p := update_of_ne hpq _ _
  rw [hpage]
  exact h p l hp

theorem SmallBut.small (h : s.SmallBut order q) (hq : (s.pages q).size < order) :
    s.Small order := by
  intro p l hp
  by_cases hpq : p = q
  · rw [hpq]
    exact hq
  · exact h p l hp hpq

theorem splitRight_size (n : Node) (p : Int) : (n.splitRight p).size = n.size - n.oldSize := by
  have hfirst : ∀ l : List (Nat × Rid), (setFirstKey NEG_KEY l).length = l.length := by
    intro l
    cases l <;> rfl
  unfold splitRight
  split
  · exact List.length_drop
  · exact (hfirst _).trans List.length_drop

theorem SmallBut.split (h : s.SmallBut order q) (htree : s.Tree seen m) (hq : s.level q = some l)
    (hsize : (s.pages q).size = order) (horder : 2 ≤ order) : (s.splitState q).Small order := by
  intro p l' hp
  rcases splitState_cases hq hp with ⟨rfl, -⟩ | ⟨hpn, hp'⟩
  · have hnew : ((s.splitState q).pages s.nextPage).size = ((s.pages q).splitRight q).size :=
      congrArg List.length (splitState_new (htree.ne_nextPage hq)).pairs
    rw [hnew, splitRight_size, oldSize]
    omega
  · by_cases hpq : p = q
    · subst hpq
      rw [splitState_old]
      have hleft : ((s.pages p).splitLeft s.nextPage).size ≤ (s.pages p).oldSize :=
        List.length_take_le _ _
      unfold oldSize at hleft
      omega
    · have hlt := h p l' hp' hpq
      unfold size at *
      rwa [(splitState_others hpq hpn).pairs]

theorem Pending.small_growRoot (h : s.Pending m old new sep l) (hsmall : s.Small order)
    (horder : 3 ≤ order) : (s.growRoot old sep new).Small order := by
  intro p l' hp
  rcases h.growRoot_cases hp with ⟨rfl, -⟩ | ⟨hpn, hp'⟩
  · rw [h.growRoot_pages.1]
    exact horder
  · have hlt := hsmall p l' hp'
    unfold size at *
    rwa [(h.growRoot_pages.2 p hpn).1.pairs]

theorem Above.setPage (h : s.Above l q trace) (hq : s.level q = some l) (n : Node) :
    (s.setPage q n).Above l q trace := by
  refine h.frame rfl (fun _ _ hr => hr) ?_
  intro r l' hr hl'
  have hrq : r ≠ q := ne_of_apply_ne s.level (by simp [hq, hr]; omega)
  exact congrArg Node.pairs (update_of_ne hrq _ _)

/-- What a split of a full node leaves to be done in its parent. -/
theorem Tree.split_full (h : s.Tree s.range m) (hq : s.level q = some l)
    (hsize : (s.pages q).size = order) (horder : 2 ≤ order) (habove : s.Above l q trace)
    (hbut : s.SmallBut order q) :
    (s.splitState q).Pending m q s.nextPage (s.pages q).splitKey l ∧
      (s.splitState q).Above l q trace ∧ (s.splitState q).Small order ∧
      s.Grows (s.splitState q) := by
  have hgrow : s.Grows (s.splitState q) :=
    ⟨fun r l' hr => (h.splitState_frame q hr).1, (splitState_rest s q).2.2⟩
  refine ⟨h.split_pending hq (by omega), ?_, hbut.split h hq hsize horder, hgrow⟩
  refine habove.frame (splitState_rest s q).2.1 hgrow.level ?_
  intro r l' hr hl'
  have hrq : r ≠ q := ne_of_apply_ne s.level (by simp [hq, hr]; omega)
  rw [(splitState_others hrq (h.ne_nextPage hr)).pairs]

theorem Tree.split_leavesKept (h : s.Tree seen m) (hq : s.level q = some (l + 1)) :
    s.LeavesKept (s.splitState q) := by
  intro r hr
  have hrq : r ≠ q := ne_of_apply_ne s.level (by simp [hq, hr])
  obtain ⟨-, -, hkeep⟩ := h.splitState_frame q hr
  exact ⟨(splitState_others hrq (h.ne_nextPage hr)).toSameEntries, (hkeep hrq).1, (hkeep hrq).2⟩

theorem split_eq {p : Int} (hsize : (s.pages p).size = order) (horder : 2 ≤ order) :
    s.split order p = .next (s.splitState p, s.nextPage, (s.pages p).splitKey) := by
  unfold split
  rw [cassert_bind hsize, cassert_bind, pure_def]
  unfold oldSize
  omega

/-- By induction on the trace, the parents end the split. -/
theorem insertIntoParent_spec (horder : 3 ≤ order) (fuel : Nat) (trace : List Int)
    (h : s.Pending m old new sep l) (habove : s.Above l old trace) (hsmall : s.Small order) :
    ∃ s', insertIntoParent order fuel trace old sep new s = .next s' ∧ s'.Tree s'.range m ∧
      s'.Small order ∧ s.Grows s' ∧ s.LeavesKept s' := by
  induction trace generalizing s old sep new l with
  | nil =>
    -- the trace is used up at the root only, which is marked as such
    have hroot : (s.pages old).isRoot = true := (h.tree.roots old l h.old_level).2 habove
    refine ⟨s.growRoot old sep new, ?_, h.growRoot_tree habove, h.small_growRoot hsmall horder,
      ⟨fun q l hq => (h.growRoot_frame hq).1, rfl⟩, fun q hq => ?_⟩
    swap
    · obtain ⟨-, hrange, hcut⟩ := h.growRoot_frame hq
      exact ⟨(h.growRoot_pages.2 q (h.tree.ne_nextPage hq)).1, hrange, hcut⟩
    unfold insertIntoParent
    rw [if_pos hroot, pure_def]
  | cons q trace ih =>
    obtain ⟨hq, hkid, habove⟩ := habove
    have hroot : ¬ (s.pages old).isRoot = true := fun htrue =>
      h.ne_root hq ((h.tree.roots old l h.old_level).1 htrue)
    obtain ⟨pairs, hinsert, hfind, hlen, -, htree⟩ := h.insert_child hq hkid
    have hparent : s.parentFor fuel old sep q = .next q := by
      unfold parentFor
      cases hf : (s.pages q).findChild old with
      | none => exact absurd hf hfind
      | some idx => rfl
    unfold insertIntoParent
    rw [if_neg hroot]
    simp only [hparent, hinsert, next_bind]
    have hbut := hsmall.setPage q { s.pages q with pairs := pairs }
    have habove₁ := habove.setPage hq { s.pages q with pairs := pairs }
    have hsize : ((s.setPage q { s.pages q with pairs := pairs }).pages q).size =
        Node.size { s.pages q with pairs := pairs } :=
      congrArg Node.size (update_self _ _ _)
    have hgrow : s.Grows (s.setPage q { s.pages q with pairs := pairs }) :=
      ⟨fun _ _ hx => hx, rfl⟩
    have hkept : s.LeavesKept (s.setPage q { s.pages q with pairs := pairs }) := by
      intro r hr
      have hrq : r ≠ q := ne_of_apply_ne s.level (by simp [hq, hr])
      refine ⟨?_, rfl, rfl⟩
      have hpage : (s.setPage q { s.pages q with pairs := pairs }).pages r = s.pages r :=
        update_of_ne hrq _ _
      rw [hpage]
      exact SameEntries.refl _
    by_cases hfull : Node.size { s.pages q with pairs := pairs } = order
    · rw [if_pos hfull]
      simp only [split_eq (hsize.trans hfull) (by omega), next_bind]
      obtain ⟨hpending, habove', hsmall', hgrow'⟩ := htree.split_full hq (hsize.trans hfull)
        (by omega) habove₁ hbut
      obtain ⟨s', hrun, htree', hsmall'', hgrow'', hkept''⟩ := ih hpending habove' hsmall'
      refine ⟨s', hrun, htree', hsmall'', hgrow.trans (hgrow'.trans hgrow''), ?_⟩
      exact hkept.trans hgrow ((htree.split_leavesKept hq).trans hgrow' hkept'')
    · rw [if_neg hfull, pure_def]
      refine ⟨_, rfl, htree, hbut.small ?_, hgrow, hkept⟩
      have hlt := hsmall q _ hq
      have hlen' : Node.size { s.pages q with pairs := pairs } = (s.pages q).size + 1 := hlen
      omega

end Index

end BLink
