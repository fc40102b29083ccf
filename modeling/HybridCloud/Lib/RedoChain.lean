import HybridCloud.Lib.Outcome

/-!
# Version chains and redo

A page has a version; a redo record names the version it was made on (`prev`) and the version it
makes (`lsn`). Records that follow one another without a gap form a chain (`Linked`).

`RedoModel` says what redo of one record does to a page: the list of single writes it performs,
each of them atomic. Completed redo moves the page from `prev` to `lsn`, and redo that was cut off
between two writes leaves a page with the old version on which the same record can be redone, with
the same result. `Position` is the state of a page in the middle of the redo of a chain.
-/

section Linked

variable {R : Type} (lsn prev : R → Nat)

/-- The records form a chain that starts at version `v`. -/
def Linked : Nat → List R → Prop
  | _, [] => True
  | v, r :: rs => prev r = v ∧ v < lsn r ∧ Linked (lsn r) rs

/-- The version after the records. -/
def versionAfter : Nat → List R → Nat
  | v, [] => v
  | _, r :: rs => versionAfter (lsn r) rs

variable {lsn prev} {v : Nat} {r r' : R} {rs xs ys : List R}

@[simp] theorem linked_nil : Linked lsn prev v [] := trivial

@[simp] theorem linked_cons :
    Linked lsn prev v (r :: rs) ↔ prev r = v ∧ v < lsn r ∧ Linked lsn prev (lsn r) rs := Iff.rfl

@[simp] theorem versionAfter_nil : versionAfter lsn v ([] : List R) = v := rfl

@[simp] theorem versionAfter_cons :
    versionAfter lsn v (r :: rs) = versionAfter lsn (lsn r) rs := rfl

theorem versionAfter_append :
    versionAfter lsn v (xs ++ ys) = versionAfter lsn (versionAfter lsn v xs) ys := by
  induction xs generalizing v with
  | nil => rfl
  | cons x xs ih => exact ih

theorem versionAfter_concat : versionAfter lsn v (xs ++ [r]) = lsn r := by
  rw [versionAfter_append]
  rfl

theorem linked_append :
    Linked lsn prev v (xs ++ ys) ↔
      Linked lsn prev v xs ∧ Linked lsn prev (versionAfter lsn v xs) ys := by
  induction xs generalizing v with
  | nil => simp
  | cons x xs ih => simp [ih, and_assoc]

namespace Linked

section

variable (h : Linked lsn prev v rs)
include h

theorem le_versionAfter : v ≤ versionAfter lsn v rs := by
  induction rs generalizing v with
  | nil => exact le_rfl
  | cons x xs ih =>
    obtain ⟨-, hlt, hrest⟩ := h
    exact le_trans hlt.le (ih hrest)

theorem lsn_bounds (hr : r ∈ rs) :
    v < lsn r ∧ lsn r ≤ versionAfter lsn v rs := by
  induction rs generalizing v with
  | nil => cases hr
  | cons x xs ih =>
    obtain ⟨-, hlt, hrest⟩ := h
    rcases List.mem_cons.1 hr with rfl | hr
    · exact ⟨hlt, hrest.le_versionAfter⟩
    · obtain ⟨hlow, hhigh⟩ := ih hrest hr
      exact ⟨hlt.trans hlow, hhigh⟩

theorem le_prev (hr : r ∈ rs) : v ≤ prev r := by
  induction rs generalizing v with
  | nil => cases hr
  | cons x xs ih =>
    obtain ⟨hprev, hlt, hrest⟩ := h
    rcases List.mem_cons.1 hr with rfl | hr
    · exact hprev.ge
    · exact hlt.le.trans (ih hrest hr)

theorem prev_lt_lsn (hr : r ∈ rs) : prev r < lsn r := by
  induction rs generalizing v with
  | nil => cases hr
  | cons x xs ih =>
    obtain ⟨hprev, hlt, hrest⟩ := h
    rcases List.mem_cons.1 hr with rfl | hr
    · exact hprev ▸ hlt
    · exact ih hrest hr

end

theorem eq_head_of_prev (h : Linked lsn prev v (r :: rs)) (hr : r' ∈ r :: rs)
    (hprev : prev r' = v) : r' = r := by
  obtain ⟨-, hlt, hrest⟩ := h
  rcases List.mem_cons.1 hr with rfl | hr
  · rfl
  · have := hrest.le_prev hr
    omega

theorem prev_injective (h : Linked lsn prev v rs) (hr : r ∈ rs) (hr' : r' ∈ rs)
    (heq : prev r = prev r') : r = r' := by
  induction rs generalizing v with
  | nil => cases hr
  | cons x xs ih =>
    obtain ⟨hprev, hlt, hrest⟩ := id h
    rcases List.mem_cons.1 hr with rfl | hxs
    · exact (h.eq_head_of_prev hr' (by omega)).symm
    · rcases List.mem_cons.1 hr' with rfl | hxs'
      · exact h.eq_head_of_prev hr (by omega)
      · exact ih hrest hxs hxs'

theorem pairwise_lsn (h : Linked lsn prev v rs) : rs.Pairwise fun r r' => lsn r < lsn r' := by
  induction rs generalizing v with
  | nil => exact List.Pairwise.nil
  | cons x xs ih =>
    obtain ⟨-, -, hrest⟩ := h
    exact List.pairwise_cons.2 ⟨fun r hr => (hrest.lsn_bounds hr).1, ih hrest⟩

theorem nodup (h : Linked lsn prev v rs) : rs.Nodup :=
  h.pairwise_lsn.imp fun hlt heq => absurd (heq ▸ hlt) (lt_irrefl _)

end Linked

end Linked

/-- Redo of records on pages, down to the single writes. -/
structure RedoModel (P W R : Type) where
  perform : P → W → P
  /-- The writes that redo of a record makes on a page, or the failure of one of its checks. -/
  redo : R → P → Outcome (List W)
  version : P → Nat
  lsn : R → Nat
  prev : R → Nat
  /-- Completed redo moves the page along the record. -/
  redo_version : ∀ {r p ws}, redo r p = .next ws →
    version p = prev r ∧ prev r < lsn r ∧ version (ws.foldl perform p) = lsn r
  /-- Interrupted redo can be done again. -/
  redo_again : ∀ {r p ws us}, redo r p = .next ws → us <+: ws → us ≠ ws →
    version (us.foldl perform p) = version p ∧
    ∃ ws', redo r (us.foldl perform p) = .next ws' ∧
      ws'.foldl perform (us.foldl perform p) = ws.foldl perform p ∧
      ∀ us', us' <+: ws' → us' ≠ ws' → ∃ us'', us'' <+: ws ∧ us'' ≠ ws ∧
        us'.foldl perform (us.foldl perform p) = us''.foldl perform p

namespace RedoModel

variable {P W R : Type} (M : RedoModel P W R)

/-- Redo of the records one after the other, each of them completely. -/
def redoAll : List R → P → Outcome P
  | [], p => .next p
  | r :: rs, p => do
    let ws ← M.redo r p
    redoAll rs (ws.foldl M.perform p)

/-- The page `q` is what redo of `done` makes of `p₀`, except that redo of the first record of
`todo` may have been cut off before its last write. -/
def Position (p₀ : P) (done todo : List R) (q : P) : Prop :=
  ∃ p, M.redoAll done p₀ = .next p ∧
    (q = p ∨ ∃ r rest ws us, todo = r :: rest ∧ M.redo r p = .next ws ∧ us <+: ws ∧ us ≠ ws ∧
      q = us.foldl M.perform p)

variable {M} {p₀ p q : P} {done todo rest rs xs ys : List R} {r : R}

@[simp] theorem redoAll_nil : M.redoAll [] p = .next p := rfl

theorem redoAll_cons :
    M.redoAll (r :: rs) p = .next q ↔
      ∃ ws, M.redo r p = .next ws ∧ M.redoAll rs (ws.foldl M.perform p) = .next q := by
  simp only [redoAll, Outcome.bind_eq_next]

theorem redoAll_append :
    M.redoAll (xs ++ ys) p = .next q ↔
      ∃ p', M.redoAll xs p = .next p' ∧ M.redoAll ys p' = .next q := by
  induction xs generalizing p with
  | nil => simp
  | cons x xs ih =>
    simp only [List.cons_append, redoAll_cons, ih]
    constructor
    · rintro ⟨ws, hws, p', hp', hq⟩
      exact ⟨p', ⟨ws, hws, hp'⟩, hq⟩
    · rintro ⟨p', ⟨ws, hws, hp'⟩, hq⟩
      exact ⟨ws, hws, p', hp', hq⟩

/-- Records that can be redone one after the other form a chain from the version of the page. -/
theorem linked_of_redoAll (h : M.redoAll rs p = .next q) :
    Linked M.lsn M.prev (M.version p) rs ∧ M.version q = versionAfter M.lsn (M.version p) rs := by
  induction rs generalizing p with
  | nil =>
    cases h
    exact ⟨linked_nil, rfl⟩
  | cons r rs ih =>
    obtain ⟨ws, hws, hrest⟩ := redoAll_cons.1 h
    obtain ⟨hprev, hlt, hlsn⟩ := M.redo_version hws
    obtain ⟨hlinked, hversion⟩ := ih hrest
    rw [hlsn] at hlinked hversion
    exact ⟨⟨hprev.symm, hprev ▸ hlt, hlinked⟩, hversion⟩

theorem Position.start (p₀ : P) (todo : List R) : M.Position p₀ [] todo p₀ :=
  ⟨p₀, rfl, .inl rfl⟩

/-- A page in the middle of redo has the version of the records that are done. -/
theorem Position.version_eq (h : M.Position p₀ done todo q) :
    M.version q = versionAfter M.lsn (M.version p₀) done := by
  obtain ⟨p, hp, rfl | ⟨r, rest, ws, us, -, hws, hus, hne, rfl⟩⟩ := h
  · exact (linked_of_redoAll hp).2
  · rw [(M.redo_again hws hus hne).1]
    exact (linked_of_redoAll hp).2

theorem Position.finished (h : M.Position p₀ done [] q) : M.redoAll done p₀ = .next q := by
  obtain ⟨p, hp, rfl | ⟨r, rest, ws, us, hnil, -⟩⟩ := h
  · exact hp
  · cases hnil

/-- Redo of the next record succeeds on a page in the middle of redo, also when it was started
before; cut off anywhere it leaves the position where it was, completed it advances it. -/
theorem Position.redo_next {p₁ : P} (h : M.Position p₀ done (r :: rest) q)
    (happ : M.redoAll (done ++ r :: rest) p₀ = .next p₁) :
    ∃ ws, M.redo r q = .next ws ∧
      M.Position p₀ (done ++ [r]) rest (ws.foldl M.perform q) ∧
      ∀ us, us <+: ws → us ≠ ws → M.Position p₀ done (r :: rest) (us.foldl M.perform q) := by
  obtain ⟨p, hp, hq⟩ := h
  obtain ⟨p', hp', hrest⟩ := redoAll_append.1 happ
  obtain rfl : p = p' := Outcome.next.inj (hp.symm.trans hp')
  obtain ⟨ws, hws, -⟩ := redoAll_cons.1 hrest
  have advance : M.Position p₀ (done ++ [r]) rest (ws.foldl M.perform p) :=
    ⟨_, redoAll_append.2 ⟨p, hp, redoAll_cons.2 ⟨ws, hws, rfl⟩⟩, .inl rfl⟩
  have stay : ∀ us, us <+: ws → us ≠ ws →
      M.Position p₀ done (r :: rest) (us.foldl M.perform p) := fun us hus hne =>
    ⟨p, hp, .inr ⟨r, rest, ws, us, rfl, hws, hus, hne, rfl⟩⟩
  rcases hq with rfl | ⟨r', rest', ws₁, us₁, hcons, hws₁, hus₁, hne₁, rfl⟩
  · exact ⟨ws, hws, advance, stay⟩
  · -- redo of `r` had been started: it is done again from the beginning
    obtain ⟨rfl, rfl⟩ := List.cons.inj hcons
    obtain rfl : ws = ws₁ := Outcome.next.inj (hws.symm.trans hws₁)
    obtain ⟨-, ws', hws', hsame, hcut⟩ := M.redo_again hws hus₁ hne₁
    refine ⟨ws', hws', hsame ▸ advance, fun us hus hne => ?_⟩
    obtain ⟨us'', hus'', hne'', heq⟩ := hcut us hus hne
    exact heq ▸ stay us'' hus'' hne''

end RedoModel
