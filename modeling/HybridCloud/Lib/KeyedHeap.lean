import Mathlib

/-!
# Heaps of rows with a unique index

A heap has a row, a key with a value, at some of its places. An index finds the place of a key, and
`Indexed` says that it finds exactly the rows of the heap; so no two rows have the same key. `rows` is
the map from keys to values that the index and the heap give together. It is also taken of a part of the
heap (`view`), while the index still finds the whole of it.

`Change` is what happens to such a map, and a `Write` is what has to be remembered about a change of the
heap to take it back.
-/

namespace KeyedHeap

open Function

variable {ι κ ν : Type}

/-- The index finds exactly the rows of the heap. -/
def Indexed (index : κ → Option ι) (heap : ι → Option (κ × ν)) : Prop :=
  ∀ k i, index k = some i ↔ ∃ v, heap i = some (k, v)

/-- The values that the index and the heap give. -/
def rows (index : κ → Option ι) (heap : ι → Option (κ × ν)) (k : κ) : Option ν :=
  (index k).bind fun i => (heap i).map Prod.snd

/-- Some rows of the heap. -/
def Within (view heap : ι → Option (κ × ν)) : Prop :=
  ∀ i x, view i = some x → heap i = some x

variable {index : κ → Option ι} {heap view : ι → Option (κ × ν)} {i : ι} {k : κ} {v w : ν}

theorem Within.refl (heap : ι → Option (κ × ν)) : Within heap heap := fun _ _ h => h

theorem Indexed.unique (h : Indexed index heap) {j : ι} (hi : heap i = some (k, v))
    (hj : heap j = some (k, w)) : i = j := by
  have hindex := (h k i).2 ⟨v, hi⟩
  rw [(h k j).2 ⟨w, hj⟩] at hindex
  exact (Option.some.inj hindex).symm

theorem rows_eq_some (h : Indexed index heap) (hview : Within view heap) :
    rows index view k = some v ↔ ∃ i, view i = some (k, v) := by
  unfold rows
  constructor
  · intro hrow
    obtain ⟨i, hi, hv⟩ := Option.bind_eq_some_iff.1 hrow
    obtain ⟨⟨k', v'⟩, hx, rfl⟩ := Option.map_eq_some_iff.1 hv
    obtain ⟨w, hw⟩ := (h k i).1 hi
    have hkey := hview i _ hx
    rw [hw] at hkey
    obtain ⟨rfl, -⟩ := Prod.mk.inj (Option.some.inj hkey)
    exact ⟨i, hx⟩
  · rintro ⟨i, hi⟩
    rw [(h k i).2 ⟨v, hview i _ hi⟩]
    exact (congrArg (Option.map Prod.snd) hi)

theorem rows_ext {ι' : Type} {index' : κ → Option ι'} {heap' view' : ι' → Option (κ × ν)}
    (h : Indexed index heap) (hview : Within view heap) (h' : Indexed index' heap')
    (hview' : Within view' heap')
    (hrows : ∀ k v, (∃ i, view i = some (k, v)) ↔ ∃ i, view' i = some (k, v)) :
    rows index view = rows index' view' := by
  funext k
  refine Option.ext fun v => ?_
  rw [rows_eq_some h hview, rows_eq_some h' hview']
  exact hrows k v

section Update

variable [DecidableEq ι]

/-! ### A row comes in -/

section

variable (h : Indexed index heap)
include h

theorem Indexed.insert [DecidableEq κ] (hfree : heap i = none) (hkey : index k = none)
    (v : ν) : Indexed (update index k (some i)) (update heap i (some (k, v))) := by
  intro k' j
  by_cases hj : j = i
  · subst hj
    by_cases hk : k' = k
    · subst hk
      simp
    · rw [update_of_ne hk, h k' j, hfree]
      simp [Ne.symm hk]
  · rw [update_of_ne hj]
    by_cases hk : k' = k
    · subst hk
      rw [update_self, ← h k' j, hkey]
      simp [Ne.symm hj]
    · rw [update_of_ne hk]
      exact h k' j

theorem rows_insert [DecidableEq κ] (hfree : heap i = none) (v : ν) :
    rows (update index k (some i)) (update view i (some (k, v))) =
      update (rows index view) k (some v) := by
  funext k'
  by_cases hk : k' = k
  · subst hk
    simp [rows]
  · rw [update_of_ne hk]
    unfold rows
    rw [update_of_ne hk]
    refine Option.bind_congr fun j hj => ?_
    have hne : j ≠ i := by
      rintro rfl
      obtain ⟨w, hw⟩ := (h k' j).1 hj
      rw [hfree] at hw
      cases hw
    rw [update_of_ne hne]

/-! ### A row changes or goes -/

theorem Indexed.set (hi : heap i = some (k, v)) (w : ν) :
    Indexed index (update heap i (some (k, w))) := by
  intro k' j
  rw [h k' j]
  by_cases hj : j = i
  · subst hj
    rw [update_self, hi]
    simp
  · rw [update_of_ne hj]

theorem Indexed.remove [DecidableEq κ] (hi : heap i = some (k, v)) :
    Indexed (update index k none) (update heap i none) := by
  intro k' j
  by_cases hk : k' = k
  · subst hk
    rw [update_self]
    by_cases hj : j = i
    · subst hj
      simp
    · rw [update_of_ne hj]
      constructor
      · nofun
      · rintro ⟨w, hw⟩
        exact absurd (h.unique hw hi) hj
  · rw [update_of_ne hk, h k' j]
    by_cases hj : j = i
    · subst hj
      rw [update_self, hi]
      simp [Ne.symm hk]
    · rw [update_of_ne hj]

/-- A change to one slot changes its key only. -/
theorem rows_update [DecidableEq κ] (hview : Within view heap)
    (hi : view i = some (k, v)) (x : Option (κ × ν)) :
    rows index (update view i x) =
      update (rows index view) k (x.map Prod.snd) := by
  have hindex : index k = some i := (h k i).2 ⟨v, hview i _ hi⟩
  funext k'
  by_cases hk : k' = k
  · subst hk
    simp [rows, hindex]
  · rw [update_of_ne hk]
    refine Option.bind_congr fun j hj => ?_
    have hne : j ≠ i := by
      rintro rfl
      obtain ⟨w, hw⟩ := (h k' j).1 hj
      rw [hview j _ hi] at hw
      exact hk (Prod.mk.inj (Option.some.inj hw)).1.symm
    rw [update_of_ne hne]

end

end Update

/-! ## Changes of the map -/

/-- What is done to a map from keys to values. -/
inductive Change (κ ν : Type) where
  | insert (k : κ) (v : ν)
  | update (k : κ) (change : ν → ν)
  | delete (k : κ)
  | nothing

section Change

variable [DecidableEq κ]

/-- A key that is there is not inserted again. -/
def Change.apply (m : κ → Option ν) : Change κ ν → Option (κ → Option ν)
  | .insert k v => if (m k).isSome then none else some (Function.update m k (some v))
  | .update k change => some (Function.update m k ((m k).map change))
  | .delete k => some (Function.update m k none)
  | .nothing => some m

/-- All of the changes, or none if one of them cannot be made. -/
def applyAll (m : κ → Option ν) (changes : List (Change κ ν)) : Option (κ → Option ν) :=
  changes.foldlM Change.apply m

/-- Is a key inserted that is among `deleted` or was deleted by an earlier change? -/
def reinserts (deleted : List κ) : List (Change κ ν) → Bool
  | [] => false
  | .insert k _ :: changes => decide (k ∈ deleted) || reinserts deleted changes
  | .delete k :: changes => reinserts (k :: deleted) changes
  | .update _ _ :: changes | .nothing :: changes => reinserts deleted changes

variable {m m' : κ → Option ν} {change : Change κ ν} {deleted : List κ}

theorem applyAll_of_some (h : change.apply m = some m') (changes : List (Change κ ν)) :
    applyAll m (change :: changes) = applyAll m' changes := by
  unfold applyAll
  rw [List.foldlM_cons, h]
  rfl

theorem applyAll_of_none (h : change.apply m = none) (changes : List (Change κ ν)) :
    applyAll m (change :: changes) = none := by
  unfold applyAll
  rw [List.foldlM_cons, h]
  rfl

theorem reinserts_of_mem (h : k ∈ deleted) (v : ν) (changes : List (Change κ ν)) :
    reinserts deleted (.insert k v :: changes) = true := by
  unfold reinserts
  rw [decide_eq_true h, Bool.true_or]

theorem reinserts_of_not_mem (h : k ∉ deleted) (v : ν) (changes : List (Change κ ν)) :
    reinserts deleted (.insert k v :: changes) = reinserts deleted changes := by
  rw [reinserts, decide_eq_false h, Bool.false_or]

end Change

/-! ## Taking changes back -/

/-- What is remembered about a change of a row. -/
inductive Write (ι κ ν : Type) where
  | insert (i : ι) (k : κ)
  | update (i : ι) (k : κ) (old : ν)
  | delete (i : ι) (k : κ)

/-- Where a write was made. -/
def Write.place : Write ι κ ν → ι
  | .insert i _ | .update i _ _ | .delete i _ => i

/-- The key of the row. -/
def Write.key : Write ι κ ν → κ
  | .insert _ k | .update _ k _ | .delete _ k => k

variable [DecidableEq ι]

/-- The heap without the change. A delete only marks the row, so there is nothing to take back. -/
def Write.undo (heap : ι → Option (κ × ν)) : Write ι κ ν → ι → Option (κ × ν)
  | .insert i _ => Function.update heap i none
  | .update i k old => Function.update heap i (some (k, old))
  | .delete _ _ => heap

/-- The changes can be taken back, last one first, and that gives the heap `heap₀`: each of them finds
its row. -/
def UndoesTo (heap₀ : ι → Option (κ × ν)) :
    List (Write ι κ ν) → (ι → Option (κ × ν)) → Prop
  | [], heap => heap = heap₀
  | w :: ws, heap => (∃ v, heap w.place = some (w.key, v)) ∧ UndoesTo heap₀ ws (w.undo heap)

end KeyedHeap
