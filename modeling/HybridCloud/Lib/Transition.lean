import HybridCloud.Lib.Outcome

/-!
# Runs of a transition system

A system is given by an executable step function `step : σ → α → Outcome σ`: in a state, an action
is blocked, aborts, or leads to the next state. `Run step allowed s₀ s` says that `s` is reached
from `s₀` by completed steps each of which was `allowed` when it was taken; the predicate `allowed`
carries what the environment promises (or the condition under which a property is claimed).
`follow` replays a list of actions, and `reaches` tests the state that it ends in.
-/

/-- `Run step allowed s₀ s`: some sequence of allowed, completed steps leads from `s₀` to `s`. -/
inductive Run {σ α : Type} (step : σ → α → Outcome σ) (allowed : σ → α → Prop) (s₀ : σ) :
    σ → Prop where
  | start : Run step allowed s₀ s₀
  | step {s s' : σ} {a : α} (run : Run step allowed s₀ s) (ok : allowed s a)
      (taken : step s a = .next s') : Run step allowed s₀ s'

namespace Run

variable {σ α : Type} {step : σ → α → Outcome σ} {allowed allowed' : σ → α → Prop} {s₀ s : σ}

/-- A property of the initial state that allowed steps preserve holds in every state reached. -/
theorem invariant {P : σ → Prop} (init : P s₀)
    (preserved : ∀ {s a s'}, P s → allowed s a → step s a = .next s' → P s')
    (run : Run step allowed s₀ s) : P s := by
  induction run with
  | start => exact init
  | step _ ok taken ih => exact preserved ih ok taken

/-- As `invariant`, for a property whose preservation may use an invariant `Q` shown before. -/
theorem invariant_under {P Q : σ → Prop} (known : ∀ {s}, Run step allowed s₀ s → Q s)
    (init : P s₀)
    (preserved : ∀ {s a s'}, Q s → Q s' → P s → allowed s a → step s a = .next s' → P s')
    (run : Run step allowed s₀ s) : P s := by
  induction run with
  | start => exact init
  | step run ok taken ih => exact preserved (known run) (known (run.step ok taken)) ih ok taken

theorem mono (h : ∀ s a, allowed s a → allowed' s a) (run : Run step allowed s₀ s) :
    Run step allowed' s₀ s := by
  induction run with
  | start => exact .start
  | step _ ok taken ih => exact ih.step (h _ _ ok) taken

theorem trans {s' : σ} (run : Run step allowed s₀ s) (run' : Run step allowed s s') :
    Run step allowed s₀ s' := by
  induction run' with
  | start => exact run
  | step _ ok taken ih => exact ih.step ok taken

end Run

section Follow

variable {σ α : Type} (step : σ → α → Outcome σ) (allowed : σ → α → Prop)
  [∀ s a, Decidable (allowed s a)]

/-- Take the listed actions one after the other; an action that is not allowed blocks. -/
def follow : List α → σ → Outcome σ
  | [], s => .next s
  | a :: as, s => do
    Outcome.await (allowed s a)
    let s ← step s a
    follow as s

/-- Do the listed actions lead to a state that satisfies `P`? -/
def reaches (as : List α) (s₀ : σ) (P : σ → Bool) : Bool :=
  match follow step allowed as s₀ with
  | .next s => P s
  | _ => false

variable {step allowed}

theorem Run.of_follow (as : List α) {s₀ s : σ} (h : follow step allowed as s₀ = .next s) :
    Run step allowed s₀ s := by
  suffices ∀ s₁, Run step allowed s₀ s₁ → follow step allowed as s₁ = .next s →
      Run step allowed s₀ s from this s₀ .start h
  clear h
  induction as with
  | nil =>
    intro s₁ run h
    simp only [follow, Outcome.next.injEq] at h
    exact h ▸ run
  | cons a as ih =>
    intro s₁ run h
    simp only [follow, Outcome.bind_eq_next, Outcome.await_eq_next] at h
    obtain ⟨_, ok, s₂, taken, rest⟩ := h
    exact ih s₂ (run.step ok taken) rest

variable (step allowed)

/-- A list of actions that leads to a state with `P` shows that such a state is reached. -/
theorem Run.of_reaches (as : List α) (s₀ : σ) (P : σ → Bool)
    (h : reaches step allowed as s₀ P = true) : ∃ s, Run step allowed s₀ s ∧ P s = true := by
  unfold reaches at h
  split at h
  · rename_i s hfollow
    exact ⟨s, Run.of_follow as hfollow, h⟩
  · cases h

end Follow
