import Mathlib

/-!
# Counting things in progress

Lists are used as multisets of things in progress: an element is taken out (`erase`), put back
changed, and counted by a predicate. A count over all parties of a system is a sum; what it is after
one party has changed is said without subtraction, so that `omega` can use it.
-/

namespace Counting

open List

variable {β : Type}

theorem countP_add_countP_not (p : β → Bool) (l : List β) :
    l.countP p + l.countP (fun b => !p b) = l.length := by
  rw [length_eq_countP_add_countP p]
  congr 2
  funext b
  cases p b <;> rfl

theorem eq_singleton_of_mem {l : List β} {b : β} (hb : b ∈ l) (hl : l.length = 1) : l = [b] := by
  obtain ⟨c, rfl⟩ := length_eq_one_iff.1 hl
  rw [mem_singleton.1 hb]

section Index

variable {l : List β} {b b' : β} {i j : Nat}

theorem countP_set_add (p : β → Bool) (hb : l[i]? = some b) (b' : β) :
    (l.set i b').countP p + (p b).toNat = l.countP p + (p b').toNat := by
  obtain ⟨hi, rfl⟩ := List.getElem?_eq_some_iff.1 hb
  have hcount : (p l[i]).toNat ≤ l.countP p := by
    cases hp : p l[i] with
    | false => exact Nat.zero_le _
    | true => exact countP_pos_iff.2 ⟨_, getElem_mem hi, hp⟩
  have hif : ∀ c : Bool, (if c = true then 1 else 0) = c.toNat := by decide
  rw [countP_set hi, hif, hif]
  omega

theorem countP_set_eq {p : β → Bool} (hb : l[i]? = some b) (hp : p b' = p b) :
    (l.set i b').countP p = l.countP p := by
  have := countP_set_add p hb b'
  rw [hp] at this
  omega

theorem getElem?_set_cases (h : (l.set i b)[j]? = some b') :
    (j = i ∧ b' = b) ∨ (j ≠ i ∧ l[j]? = some b') := by
  rw [getElem?_set] at h
  by_cases hij : i = j
  · rw [if_pos hij] at h
    split at h
    · exact .inl ⟨hij.symm, (Option.some.inj h).symm⟩
    · cases h
  · rw [if_neg hij] at h
    exact .inr ⟨Ne.symm hij, h⟩

theorem eq_of_countP_le_one {p : β → Bool} (hl : l.countP p ≤ 1) (hi : l[i]? = some b)
    (hj : l[j]? = some b') (hb : p b = true) (hb' : p b' = true) : i = j := by
  induction l generalizing i j with
  | nil => cases hi
  | cons c l ih =>
    have hpos : ∀ {k : Nat} {d : β}, l[k]? = some d → p d = true → 0 < l.countP p :=
      fun hk hd => countP_pos_iff.2 ⟨_, mem_of_getElem? hk, hd⟩
    rw [countP_cons] at hl
    cases i with
    | zero =>
      cases j with
      | zero => rfl
      | succ j =>
        obtain rfl : c = b := by simpa using hi
        have := hpos (by simpa using hj) hb'
        simp only [hb, if_true] at hl
        omega
    | succ i =>
      have hi' : l[i]? = some b := by simpa using hi
      cases j with
      | zero =>
        obtain rfl : c = b' := by simpa using hj
        have := hpos hi' hb
        simp only [hb', if_true] at hl
        omega
      | succ j => exact congrArg _ (ih (by omega) hi' (by simpa using hj))

end Index

variable [DecidableEq β] {l : List β} {b b' : β}

theorem countP_erase_add (p : β → Bool) (hb : b ∈ l) :
    (l.erase b).countP p + (if p b then 1 else 0) = l.countP p := by
  rw [(perm_cons_erase hb).countP_eq p, countP_cons]

theorem countP_replace {p : β → Bool} (hb : b ∈ l) (hp : p b' = p b) :
    (b' :: l.erase b).countP p = l.countP p := by
  rw [countP_cons, hp, countP_erase_add p hb]

theorem length_erase_add (hb : b ∈ l) : (l.erase b).length + 1 = l.length := by
  have hpos := length_pos_of_mem hb
  rw [length_erase_of_mem hb]
  omega

theorem sum_update_add {ι β : Type} [Fintype ι] [DecidableEq ι] (F : β → Nat) (g : ι → β) (i : ι)
    (b : β) : ∑ j, F (Function.update g i b j) + F (g i) = ∑ j, F (g j) + F b := by
  have hupdate : ∀ j, F (Function.update g i b j) = Function.update (F ∘ g) i (F b) j := by
    intro j
    by_cases hj : j = i
    · subst hj
      simp
    · simp [hj]
  rw [Finset.sum_congr rfl fun j _ => hupdate j, Finset.sum_update_of_mem (Finset.mem_univ i),
    ← Finset.add_sum_erase Finset.univ (fun j => F (g j)) (Finset.mem_univ i),
    ← Finset.erase_eq]
  simp only [Function.comp_apply]
  omega

end Counting
