import Mathlib

/-!
# Outcomes of one piece of concurrent code

A piece of code that runs without being interrupted ends in one of three ways: it has to wait
(a mutex is taken, a condition variable has not been signalled), it stops the process because an
assertion is violated, or it completes with a value. `await` and `cassert` are the two ways of not
completing.
-/

/-- How a run of uninterruptible code ends. -/
inductive Outcome (α : Type) where
  /-- The code cannot proceed in this state. -/
  | blocked
  /-- An assertion of the code is violated. -/
  | abort
  /-- The code completes with a value. -/
  | next (a : α)
  deriving DecidableEq, Repr

namespace Outcome

variable {α β : Type}

/-- Sequencing: only a completed first part lets the second one run. -/
def bind : Outcome α → (α → Outcome β) → Outcome β
  | blocked, _ => blocked
  | abort, _ => abort
  | next a, f => f a

instance : Monad Outcome where
  pure := next
  bind := bind

/-- Wait until `p` holds. -/
def await (p : Prop) [Decidable p] : Outcome Unit :=
  if p then next () else blocked

/-- The C `assert`: stop the process unless `p` holds. -/
def cassert (p : Prop) [Decidable p] : Outcome Unit :=
  if p then next () else abort

@[simp] theorem pure_def (a : α) : (pure a : Outcome α) = next a := rfl

@[simp] theorem next_bind (a : α) (f : α → Outcome β) : (next a >>= f) = f a := rfl

@[simp] theorem blocked_bind (f : α → Outcome β) : ((blocked : Outcome α) >>= f) = blocked := rfl

@[simp] theorem abort_bind (f : α → Outcome β) : ((abort : Outcome α) >>= f) = abort := rfl

variable {f : α → Outcome β} {x : Outcome α}

theorem bind_eq_next {b : β} : (x >>= f) = next b ↔ ∃ a, x = next a ∧ f a = next b := by
  cases x <;> simp

theorem bind_eq_abort : (x >>= f) = abort ↔ x = abort ∨ ∃ a, x = next a ∧ f a = abort := by
  cases x <;> simp

/-- Does the code complete with a value that passes the test? -/
def completes (x : Outcome α) (P : α → Bool) : Bool :=
  match x with
  | next a => P a
  | _ => false

theorem of_completes {P : α → Bool} (h : x.completes P = true) : ∃ a, x = next a ∧ P a = true := by
  cases x with
  | blocked => cases h
  | abort => cases h
  | next a => exact ⟨a, rfl, h⟩

/-- Does the code violate an assertion? -/
def aborts : Outcome α → Bool
  | abort => true
  | _ => false

theorem of_aborts (h : x.aborts = true) : x = abort := by
  cases x with
  | abort => rfl
  | _ => cases h

/-- The two pieces of code end alike, and a value that they complete with is in `P`. -/
def Alike (P : α → Prop) (x y : Outcome α) : Prop := x = y ∧ ∀ a, y = next a → P a

namespace Alike

variable {P : α → Prop} {Q : β → Prop} {y : Outcome α} {g : α → Outcome β}

theorem of_self (h : ∀ a, x = next a → P a) : Alike P x x := ⟨rfl, h⟩

theorem of_next {a : α} (h : P a) : Alike P (next a) (next a) := by
  refine of_self fun b hb => ?_
  obtain rfl := next.inj hb
  exact h

theorem of_abort : Alike P (abort : Outcome α) abort := of_self fun _ h => by cases h

/-- Code that goes on alike from the values in `P`. -/
theorem bind (h : Alike P x y) (hgo : ∀ a, P a → Alike Q (f a) (g a)) :
    Alike Q (x >>= f) (y >>= g) := by
  obtain ⟨rfl, hP⟩ := h
  cases x with
  | blocked => exact of_self fun _ h => by cases h
  | abort => exact of_abort
  | next a => exact hgo a (hP a rfl)

end Alike

variable {p : Prop}

@[simp] theorem cassert_eq_next [Decidable p] {u : Unit} : cassert p = next u ↔ p := by
  by_cases h : p <;> simp [cassert, h]

@[simp] theorem await_eq_next [Decidable p] {u : Unit} : await p = next u ↔ p := by
  by_cases h : p <;> simp [await, h]

@[simp] theorem cassert_eq_abort [Decidable p] : cassert p = abort ↔ ¬ p := by
  by_cases h : p <;> simp [cassert, h]

@[simp] theorem await_ne_abort [Decidable p] : await p ≠ abort := by
  by_cases h : p <;> simp [await, h]

theorem cassert_bind [Decidable p] (h : p) (f : Unit → Outcome β) : (cassert p >>= f) = f () := by
  simp [cassert, h]

theorem cassert_bind_abort [Decidable p] (h : ¬ p) (f : Unit → Outcome β) :
    (cassert p >>= f) = abort := by
  simp [cassert, h]

theorem await_bind_ne_abort [Decidable p] {f : Unit → Outcome β} (h : p → f () ≠ abort) :
    (await p >>= f) ≠ abort := by
  by_cases hp : p <;> simp [await, hp, h]

theorem await_bind [Decidable p] (h : p) (f : Unit → Outcome β) : (await p >>= f) = f () := by
  simp [await, h]

end Outcome

/-- A mutex, seen from the outside. -/
structure Mutex where
  /-- Whether some execution holds it. -/
  held : Bool
  /-- Ghost: how many unlocks were made by an execution that did not hold it. -/
  strays : Nat
  deriving DecidableEq, Repr

namespace Mutex

/-- Nobody has the mutex. -/
def free : Mutex := { held := false, strays := 0 }

/-- Take the mutex, waiting until it is free. -/
def lock (m : Mutex) : Outcome Mutex := do
  Outcome.await (m.held = false)
  return { m with held := true }

/-- Let the mutex go; the lock word is cleared even when nobody held it. -/
def unlock (m : Mutex) : Mutex :=
  { held := false, strays := if m.held then m.strays else m.strays + 1 }

/-- Clear the lock word from an execution that never took the mutex. -/
def strayUnlock (m : Mutex) : Mutex :=
  { held := false, strays := m.strays + 1 }

variable {m : Mutex}

theorem unlock_of_relock (h : m.held = false) : ({ m with held := true } : Mutex).unlock = m := by
  cases m
  simp_all [unlock]

theorem lock_eq_next {m' : Mutex} :
    m.lock = .next m' ↔ m.held = false ∧ m' = { m with held := true } := by
  constructor
  · intro h
    simp only [lock, Outcome.bind_eq_next, Outcome.await_eq_next] at h
    obtain ⟨_, hfree, heq⟩ := h
    exact ⟨hfree, by simpa using heq.symm⟩
  · rintro ⟨hfree, rfl⟩
    simp [lock, Outcome.await, hfree]

theorem lock_ne_abort (m : Mutex) : m.lock ≠ .abort := by
  simp [lock, Outcome.bind_eq_abort]

theorem lock_of_free (h : m.held = false) : m.lock = .next { m with held := true } :=
  lock_eq_next.2 ⟨h, rfl⟩

end Mutex
