import Mathlib

/-!
# Binary search

`boundary p fuel l r` is the loop that halves the interval `[l, r)` until it is empty, going left
where `p` holds in the middle and right where it does not. When `p` is monotone on the interval, the
loop ends at the first place where `p` holds, or at `r`.
-/

/-- The loop of a binary search; `fuel` bounds the number of rounds. -/
def boundary (p : Nat → Bool) : Nat → Nat → Nat → Nat
  | 0, l, _ => l
  | fuel + 1, l, r =>
    if l < r then
      if p ((l + r) / 2) then boundary p fuel l ((l + r) / 2)
      else boundary p fuel ((l + r) / 2 + 1) r
    else l

/-- With fuel for the length of the interval, the search ends where `p` begins to hold. -/
theorem boundary_spec (p : Nat → Bool) (fuel : Nat) {l r : Nat} (hlr : l ≤ r) (hfuel : r - l ≤ fuel)
    (hmono : ∀ i j, l ≤ i → i ≤ j → j < r → p i = true → p j = true) :
    l ≤ boundary p fuel l r ∧ boundary p fuel l r ≤ r ∧
      (∀ i, l ≤ i → i < boundary p fuel l r → p i = false) ∧
      (∀ i, boundary p fuel l r ≤ i → i < r → p i = true) := by
  induction fuel generalizing l r with
  | zero =>
    have heq : l = r := by omega
    subst heq
    unfold boundary
    refine ⟨Nat.le_refl _, Nat.le_refl _, ?_, ?_⟩
    · intro i hi hi'
      omega
    · intro i hi hi'
      omega
  | succ fuel ih =>
    unfold boundary
    by_cases hlt : l < r
    · rw [if_pos hlt]
      by_cases hmid : p ((l + r) / 2) = true
      · -- the middle is one of the places where `p` holds
        rw [if_pos hmid]
        have hle : l ≤ (l + r) / 2 := by omega
        have hr : (l + r) / 2 < r := by omega
        obtain ⟨h₁, h₂, h₃, h₄⟩ := ih hle (by omega)
          fun i j hi hij hj hp => hmono i j hi hij (by omega) hp
        refine ⟨h₁, by omega, h₃, ?_⟩
        intro i hi hir
        by_cases him : i < (l + r) / 2
        · exact h₄ i hi him
        · exact hmono ((l + r) / 2) i hle (by omega) hir hmid
      · rw [if_neg hmid]
        obtain ⟨h₁, h₂, h₃, h₄⟩ := ih (l := (l + r) / 2 + 1) (r := r) (by omega) (by omega)
          fun i j hi hij hj hp => hmono i j (by omega) hij hj hp
        refine ⟨by omega, h₂, ?_, h₄⟩
        intro i hi hib
        by_cases him : i ≤ (l + r) / 2
        · cases hp : p i with
          | false => rfl
          | true => exact absurd (hmono i ((l + r) / 2) hi him (by omega) hp) hmid
        · exact h₃ i (by omega) hib
    · rw [if_neg hlt]
      refine ⟨Nat.le_refl _, hlr, ?_, ?_⟩
      · intro i hi hi'
        omega
      · intro i hi hi'
        omega
