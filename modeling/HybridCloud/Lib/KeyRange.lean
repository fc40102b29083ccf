import Mathlib

/-!
# Ranges of keys, and how children share one

A range of an ordered set of keys has a lower bound, which belongs to it, and an upper bound, which
does not; either may be missing. `Cover range lo c rest hi` says that a first child `c` and the
children of `rest`, each given with its key, share the keys from `lo` to `hi`: the range of a child
begins at its key and ends at the key of the next one.
-/

/-- The keys from `lo` on and below `hi`. -/
structure KeyRange (κ : Type) where
  lo : Option κ
  hi : Option κ
  deriving DecidableEq, Repr

namespace KeyRange

variable {κ : Type} [LinearOrder κ]

/-- All keys. -/
def all : KeyRange κ := ⟨none, none⟩

/-- The key is not below the bound. -/
def From (lo : Option κ) (k : κ) : Prop := ∀ a, lo = some a → a ≤ k

/-- `k` is below an end, which may be missing. -/
def Below (hi : Option κ) (k : κ) : Prop := ∀ b, hi = some b → k < b

instance (lo : Option κ) (k : κ) : Decidable (From lo k) :=
  match lo with
  | none => .isTrue (by intro a h; cases h)
  | some a => decidable_of_iff (a ≤ k) ⟨by rintro h _ ⟨⟩; exact h, fun h => h a rfl⟩

instance (hi : Option κ) (k : κ) : Decidable (Below hi k) :=
  match hi with
  | none => .isTrue (by intro a h; cases h)
  | some b => decidable_of_iff (k < b) ⟨by rintro h _ ⟨⟩; exact h, fun h => h b rfl⟩

/-- The range has the key. -/
def Has (r : KeyRange κ) (k : κ) : Prop := From r.lo k ∧ Below r.hi k

instance (r : KeyRange κ) (k : κ) : Decidable (r.Has k) := inferInstanceAs (Decidable (_ ∧ _))

/-- The range has a key. -/
def NonEmpty (r : KeyRange κ) : Prop := ∃ k, r.Has k

@[simp] theorem from_none (k : κ) : From none k := by
  intro a h
  cases h

@[simp] theorem below_none (k : κ) : Below none k := by
  intro b h
  cases h

@[simp] theorem from_some {a k : κ} : From (some a) k ↔ a ≤ k :=
  ⟨fun h => h a rfl, by rintro h _ ⟨⟩; exact h⟩

@[simp] theorem below_some {b k : κ} : Below (some b) k ↔ k < b :=
  ⟨fun h => h b rfl, by rintro h _ ⟨⟩; exact h⟩

theorem all_has (k : κ) : (all : KeyRange κ).Has k := ⟨from_none k, below_none k⟩

/-- The lower part of a range that is cut at `k`. -/
def below (r : KeyRange κ) (k : κ) : KeyRange κ := ⟨r.lo, some k⟩

/-- The upper part of a range that is cut at `k`. -/
def above (r : KeyRange κ) (k : κ) : KeyRange κ := ⟨some k, r.hi⟩

theorem has_below_iff {r : KeyRange κ} {sep k : κ} : (r.below sep).Has k ↔ From r.lo k ∧ k < sep := by
  simp [Has, below]

theorem has_above_iff {r : KeyRange κ} {sep k : κ} : (r.above sep).Has k ↔ sep ≤ k ∧ Below r.hi k := by
  simp [Has, above]

end KeyRange

namespace KeyRange

variable {κ ι : Type}

/-- The bound at which the first of these children begins. -/
def next : List (κ × ι) → Option κ → Option κ
  | [], hi => hi
  | (k, _) :: _, _ => some k

/-- The range of each child begins at its key and ends where the next child begins. -/
def Tail (range : ι → KeyRange κ) : List (κ × ι) → Option κ → Prop
  | [], _ => True
  | (k, c) :: rest, hi => range c = ⟨some k, next rest hi⟩ ∧ Tail range rest hi

/-- The children `c` and `rest` share the keys from `lo` to `hi`. -/
def Cover (range : ι → KeyRange κ) (lo : Option κ) (c : ι) (rest : List (κ × ι))
    (hi : Option κ) : Prop :=
  range c = ⟨lo, next rest hi⟩ ∧ Tail range rest hi

variable {range range' : ι → KeyRange κ} {lo hi : Option κ} {c : ι} {rest A B : List (κ × ι)}

theorem next_append : next (A ++ B) hi = next A (next B hi) := by
  cases A with
  | nil => rfl
  | cons x A => rfl

theorem tail_append : Tail range (A ++ B) hi ↔ Tail range A (next B hi) ∧ Tail range B hi := by
  induction A with
  | nil => simp [Tail]
  | cons x A ih =>
    obtain ⟨k, d⟩ := x
    simp only [List.cons_append, Tail, ih, next_append, and_assoc]

theorem cover_append : Cover range lo c (A ++ B) hi ↔
    Cover range lo c A (next B hi) ∧ Tail range B hi := by
  simp only [Cover, tail_append, next_append, and_assoc]

theorem Tail.congr (h : Tail range rest hi) (hsame : ∀ x ∈ rest, range' x.2 = range x.2) :
    Tail range' rest hi := by
  induction rest with
  | nil => trivial
  | cons x rest ih =>
    obtain ⟨k, d⟩ := x
    refine ⟨?_, ih h.2 fun y hy => hsame y (List.mem_cons_of_mem _ hy)⟩
    rw [hsame (k, d) List.mem_cons_self]
    exact h.1

theorem Cover.congr (h : Cover range lo c rest hi) (hfirst : range' c = range c)
    (hsame : ∀ x ∈ rest, range' x.2 = range x.2) : Cover range' lo c rest hi :=
  ⟨hfirst.trans h.1, h.2.congr hsame⟩

theorem Tail.lo_eq (h : Tail range rest hi) {x : κ × ι} (hx : x ∈ rest) :
    (range x.2).lo = some x.1 := by
  induction rest with
  | nil => simp at hx
  | cons y rest ih =>
    obtain ⟨k, d⟩ := y
    rcases List.mem_cons.1 hx with rfl | hmem
    · rw [h.1]
    · exact ih h.2 hmem

/-- The range of the first child is given to two of them. -/
theorem Cover.split_first {old new : ι} {sep : κ} (h : Cover range lo old rest hi)
    (hold : range old = ⟨(range' old).lo, (range' new).hi⟩) (hsep : (range' old).hi = some sep)
    (hsep' : (range' new).lo = some sep) (hrest : ∀ x ∈ rest, range' x.2 = range x.2) :
    Cover range' lo old ((sep, new) :: rest) hi := by
  have heq : (⟨(range' old).lo, (range' new).hi⟩ : KeyRange κ) = ⟨lo, next rest hi⟩ :=
    hold.symm.trans h.1
  obtain ⟨hlo, hhi⟩ := KeyRange.mk.injEq .. ▸ heq
  refine ⟨?_, ?_, h.2.congr hrest⟩
  · rw [← hlo]
    exact congrArg (KeyRange.mk _) hsep
  · rw [← hhi]
    exact congrArg (fun a => KeyRange.mk a _) hsep'

/-- The range of another child is given to two of them. -/
theorem Cover.split_other {old new : ι} {sep k : κ} (h : Cover range lo c (A ++ (k, old) :: B) hi)
    (hold : range old = ⟨(range' old).lo, (range' new).hi⟩) (hsep : (range' old).hi = some sep)
    (hsep' : (range' new).lo = some sep) (hc : range' c = range c)
    (hA : ∀ x ∈ A, range' x.2 = range x.2) (hB : ∀ x ∈ B, range' x.2 = range x.2) :
    Cover range' lo c (A ++ (k, old) :: (sep, new) :: B) hi := by
  obtain ⟨hfront, hback⟩ := cover_append.1 h
  have hback' : Cover range (some k) old B hi := hback
  obtain ⟨hfirst, hrest⟩ := hback'.split_first hold hsep hsep' hB
  exact cover_append.2 ⟨hfront.congr hc hA, hfirst, hrest⟩

section Ordered

variable [LinearOrder κ]

theorem Tail.key_below (h : Tail range rest hi) (hinh : ∀ x ∈ rest, (range x.2).NonEmpty)
    {x : κ × ι} (hx : x ∈ rest) : Below hi x.1 := by
  induction rest generalizing x with
  | nil => simp at hx
  | cons y rest ih =>
    obtain ⟨k, d⟩ := y
    have hrest : ∀ z ∈ rest, (range z.2).NonEmpty := fun z hz => hinh z (List.mem_cons_of_mem _ hz)
    rcases List.mem_cons.1 hx with rfl | hmem
    · obtain ⟨j, hj⟩ := hinh (k, d) List.mem_cons_self
      rw [h.1] at hj
      have hkj : k ≤ j := hj.1 k rfl
      cases rest with
      | nil =>
        intro b hb
        exact lt_of_le_of_lt hkj (hj.2 b hb)
      | cons z rest =>
        have hkz : k < z.1 := lt_of_le_of_lt hkj (hj.2 z.1 rfl)
        intro b hb
        exact hkz.trans (ih h.2 hrest List.mem_cons_self b hb)
    · exact ih h.2 hrest hmem

theorem Tail.sorted (h : Tail range rest hi) (hinh : ∀ x ∈ rest, (range x.2).NonEmpty) :
    rest.Pairwise fun x y => x.1 < y.1 := by
  induction rest with
  | nil => exact List.Pairwise.nil
  | cons y rest ih =>
    obtain ⟨k, d⟩ := y
    have hrest : ∀ z ∈ rest, (range z.2).NonEmpty := fun z hz => hinh z (List.mem_cons_of_mem _ hz)
    have hsorted := ih h.2 hrest
    refine List.pairwise_cons.2 ⟨?_, hsorted⟩
    intro z hz
    obtain ⟨j, hj⟩ := hinh (k, d) List.mem_cons_self
    rw [h.1] at hj
    have hkj : k ≤ j := hj.1 k rfl
    cases rest with
    | nil => simp at hz
    | cons w rest =>
      have hkw : k < w.1 := lt_of_le_of_lt hkj (hj.2 w.1 rfl)
      rcases List.mem_cons.1 hz with rfl | hmem
      · exact hkw
      · exact hkw.trans ((List.pairwise_cons.1 hsorted).1 z hmem)

namespace Cover

variable (h : Cover range lo c rest hi) (hc : (range c).NonEmpty)
  (hinh : ∀ x ∈ rest, (range x.2).NonEmpty)
include h hc hinh

theorem lo_lt {x : κ × ι} (hx : x ∈ rest) {a : κ} (ha : lo = some a) : a < x.1 := by
  obtain ⟨j, hj⟩ := hc
  rw [h.1] at hj
  have haj : a ≤ j := hj.1 a ha
  cases rest with
  | nil => simp at hx
  | cons y rest =>
    have hay : a < y.1 := lt_of_le_of_lt haj (hj.2 y.1 rfl)
    rcases List.mem_cons.1 hx with rfl | hmem
    · exact hay
    · exact hay.trans ((List.pairwise_cons.1 (h.2.sorted hinh)).1 x hmem)

theorem nodup : (c :: rest.map Prod.snd).Nodup := by
  refine List.nodup_cons.2 ⟨?_, ?_⟩
  · intro hmem
    obtain ⟨x, hx, hxc⟩ := List.mem_map.1 hmem
    have hlo : lo = some x.1 := by
      have heq := h.2.lo_eq hx
      rw [hxc, h.1] at heq
      exact heq
    exact lt_irrefl _ (h.lo_lt hc hinh hx hlo)
  · refine List.pairwise_map.2 ((h.2.sorted hinh).imp_of_mem ?_)
    intro x y hx hy hlt heq
    have hlo := h.2.lo_eq hx
    rw [heq, h.2.lo_eq hy] at hlo
    exact absurd (Option.some.inj hlo) (ne_of_gt hlt)

theorem has_of_child {d : ι} (hd : d ∈ c :: rest.map Prod.snd) {k : κ} (hk : (range d).Has k) :
    (⟨lo, hi⟩ : KeyRange κ).Has k := by
  have hbelow : ∀ {B : List (κ × ι)}, (∀ x ∈ B, x ∈ rest) → Tail range B hi →
      Below (next B hi) k → Below hi k := by
    intro B hB hT hnext
    cases B with
    | nil => exact hnext
    | cons y B =>
      intro b hb
      have hy := h.2.key_below hinh (hB y List.mem_cons_self)
      exact (hnext y.1 rfl).trans (hy b hb)
  rcases List.mem_cons.1 hd with rfl | hmem
  · rw [h.1] at hk
    exact ⟨hk.1, hbelow (fun _ hx => hx) h.2 hk.2⟩
  · obtain ⟨x, hx, rfl⟩ := List.mem_map.1 hmem
    obtain ⟨A, B, rfl⟩ := List.append_of_mem hx
    have hT := (tail_append.1 h.2).2
    obtain ⟨y, d⟩ := x
    have hr : range d = ⟨some y, next B hi⟩ := hT.1
    rw [hr] at hk
    refine ⟨?_, hbelow (fun z hz => by simp [hz]) hT.2 hk.2⟩
    intro a ha
    exact (h.lo_lt hc hinh hx ha).le.trans (hk.1 y rfl)

end Cover

/-- The child to go to: the last one that does not begin above the key. -/
theorem Cover.route (h : Cover range lo c (A ++ B) hi) {k : κ} (hlo : From lo k)
    (hA : ∀ x ∈ A, x.1 ≤ k) (hB : Below (next B hi) k) :
    (range ((A.map Prod.snd).getLastD c)).Has k := by
  rw [cover_append] at h
  rcases List.eq_nil_or_concat A with rfl | ⟨A', x, rfl⟩
  · rw [List.map_nil, List.getLastD_nil, h.1.1]
    exact ⟨hlo, hB⟩
  · obtain ⟨y, d⟩ := x
    have hT : Tail range [(y, d)] (next B hi) := by
      have htail := h.1.2
      rw [List.concat_eq_append, tail_append] at htail
      exact htail.2
    have hlast : ((A'.concat (y, d)).map Prod.snd).getLastD c = d := by simp
    rw [hlast, hT.1]
    exact ⟨by simpa using hA (y, d) (by simp), hB⟩

end Ordered

end KeyRange
