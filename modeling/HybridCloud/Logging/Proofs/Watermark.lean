import HybridCloud.Logging.LogBuffer

/-!
# The watermark of a node's log

The records are queued in the order of their LSNs and become durable in that order. `LogInv` states
this as a split of `enqueued` into what is durable, what the current flush carries and what waits in
`log_records`.
-/

namespace Logging

open Outcome Storage

namespace LogBuffer

variable {b b' : LogBuffer} {log r : LogRecord} {batch : List LogRecord} {pageLLSN : Nat}

/-- The records that the current flush has taken and that storage has not acknowledged. -/
def inFlight (b : LogBuffer) : List LogRecord :=
  match b.flush with
  | some (.writing batch) => batch
  | _ => []

/-- What the stages of a flush have to say about the watermark. -/
def FlushInv (b : LogBuffer) : Prop :=
  match b.flush with
  | some (.acknowledged batch) => batch ⊆ b.durable
  | some (.published readyLsn) => readyLsn ≤ b.persistLsn
  | _ => True

/-- The log is queued and becomes durable in the order of its LSNs. -/
structure LogInv (b : LogBuffer) : Prop where
  /-- The LSNs of the queue grow. -/
  increasing : b.issued.Pairwise (·.lsn < ·.lsn)
  current : ∀ r ∈ b.issued, r.lsn ≤ b.currentLLSN
  /-- What has been queued is durable, in flight or waiting. -/
  split : b.enqueued = b.durable ++ (b.inFlight ++ b.logRecords)
  /-- The watermark is the LSN of a durable record, or nothing has been flushed yet. -/
  persisted : b.persistLsn = 0 ∨ ∃ r ∈ b.durable, r.lsn = b.persistLsn
  positive : ∀ r ∈ b.issued, 0 < r.lsn
  flushed : b.FlushInv
  /-- The scheduler's watermark is not ahead. -/
  ready : b.pushReadyLsn ≤ b.persistLsn

theorem maxLsn_spec (batch : List LogRecord) :
    maxLsn batch = 0 ∨ ∃ r ∈ batch, r.lsn = maxLsn batch := by
  suffices ∀ m, batch.foldl (fun m log => if m < log.lsn then log.lsn else m) m = m ∨
      ∃ r ∈ batch, r.lsn = batch.foldl (fun m log => if m < log.lsn then log.lsn else m) m from
    this 0
  induction batch with
  | nil => exact fun m => .inl rfl
  | cons x xs ih =>
    intro m
    rw [List.foldl_cons]
    rcases ih (if m < x.lsn then x.lsn else m) with h | ⟨r, hr, h⟩
    · rw [h]
      split
      · exact .inr ⟨x, List.mem_cons_self, rfl⟩
      · exact .inl rfl
    · exact .inr ⟨r, List.mem_cons_of_mem _ hr, h⟩

theorem mem_issued : r ∈ b.issued ↔ r ∈ b.enqueued ∨ b.logMtx = some r := by
  simp [issued]

theorem mem_enqueued (h : LogInv b) :
    r ∈ b.enqueued ↔ r ∈ b.durable ∨ r ∈ b.inFlight ∨ r ∈ b.logRecords := by
  simp [h.split]

namespace LogInv

section

variable (h : LogInv b)
include h

theorem increasing_enqueued : b.enqueued.Pairwise (·.lsn < ·.lsn) :=
  (List.pairwise_append.1 h.increasing).1

theorem durable_lt {d : LogRecord} (hd : d ∈ b.durable) (hr : r ∈ b.issued)
    (hrd : r ∉ b.durable) : d.lsn < r.lsn := by
  rcases mem_issued.1 hr with hr | hr
  · have hpair := h.increasing_enqueued
    rw [h.split, List.pairwise_append] at hpair
    rw [h.split] at hr
    rcases List.mem_append.1 hr with hr | hr
    · exact absurd hr hrd
    · exact hpair.2.2 d hd r hr
  · have hdq : d ∈ b.enqueued := (mem_enqueued h).2 (.inl hd)
    exact (List.pairwise_append.1 h.increasing).2.2 d hdq r (by simp [hr])

theorem persist_lt (hr : r ∈ b.issued) (hrd : r ∉ b.durable) :
    b.persistLsn < r.lsn := by
  rcases h.persisted with hzero | ⟨d, hd, hlsn⟩
  · exact hzero ▸ h.positive r hr
  · exact hlsn ▸ h.durable_lt hd hr hrd

theorem allocate (log : LogRecord) (hfree : b.logMtx = none)
    (hlt : b.currentLLSN < log.lsn) :
    LogInv { b with currentLLSN := log.lsn, logMtx := some log } where
  increasing := by
    have hissued : b.issued = b.enqueued := by simp [issued, hfree]
    refine List.pairwise_append.2 ⟨h.increasing_enqueued, List.pairwise_singleton _ _, ?_⟩
    intro r hr x hx
    obtain rfl := List.mem_singleton.1 hx
    exact (h.current r (hissued ▸ hr)).trans_lt hlt
  current := by
    intro r hr
    rcases mem_issued.1 hr with hr | hr
    · exact (h.current r (mem_issued.2 (.inl hr))).trans hlt.le
    · exact (Option.some.inj hr ▸ le_rfl : r.lsn ≤ log.lsn)
  split := h.split
  persisted := h.persisted
  positive := by
    intro r hr
    rcases mem_issued.1 hr with hr | hr
    · exact h.positive r (mem_issued.2 (.inl hr))
    · obtain rfl := Option.some.inj hr
      exact Nat.zero_lt_of_lt hlt
  flushed := h.flushed
  ready := h.ready

theorem enqueue (hmtx : b.logMtx = some log) :
    LogInv { b with
      logMtx := none
      logRecords := b.logRecords ++ [log]
      enqueued := b.enqueued ++ [log] } := by
  have hissued : b.issued = (b.enqueued ++ [log]) ++ (none : Option LogRecord).toList := by
    simp [issued, hmtx]
  refine ⟨?_, fun r hr => h.current r (hissued ▸ hr), ?_, h.persisted,
    fun r hr => h.positive r (hissued ▸ hr), h.flushed, h.ready⟩
  · have hpair := h.increasing
    rw [hissued] at hpair
    exact hpair
  show b.enqueued ++ [log] = b.durable ++ (b.inFlight ++ (b.logRecords ++ [log]))
  rw [h.split]
  simp only [List.append_assoc]

theorem publish {lsn : Nat} (hflush : b.inFlight = [])
    (hlsn : ∃ r ∈ b.durable, r.lsn = lsn) (hle : b.persistLsn ≤ lsn) :
    LogInv { b with flush := some (.published lsn), persistLsn := lsn } where
  increasing := h.increasing
  current := h.current
  split := by
    show b.enqueued = b.durable ++ ([] ++ b.logRecords)
    rw [h.split, hflush]
  persisted := .inr hlsn
  positive := h.positive
  flushed := le_rfl
  ready := h.ready.trans hle

/-- Every step keeps the invariant. -/
theorem step {a : Action} (taken : b.step a = .next b') : LogInv b' := by
  cases a with
  | updatePageLLSN log pageLLSN =>
    simp only [LogBuffer.step, LogBuffer.updatePageLLSN, bind_eq_next, await_eq_next, pure_def,
      next.injEq] at taken
    obtain ⟨-, hfree, rfl⟩ := taken
    exact h.allocate { log with lsn := _, prevLsn := pageLLSN } hfree (lt_nextPageLLSN _ _).1
  | addMetadataLog log =>
    simp only [LogBuffer.step, LogBuffer.addMetadataLog, bind_eq_next, await_eq_next, pure_def,
      next.injEq] at taken
    obtain ⟨-, hfree, rfl⟩ := taken
    exact h.allocate { log with lsn := _ } hfree (Nat.lt_succ_self _)
  | addToLogNoBlock =>
    simp only [LogBuffer.step, LogBuffer.addToLogNoBlock] at taken
    split at taken
    · cases taken
    · rename_i log hmtx
      cases taken
      exact h.enqueue hmtx
  | flushTake =>
    simp only [LogBuffer.step, LogBuffer.flushTake, bind_eq_next, await_eq_next] at taken
    obtain ⟨-, ⟨hflush, -⟩, taken⟩ := taken
    split at taken <;> cases taken
    · exact h
    · -- the whole queue becomes the batch
      refine ⟨h.increasing, h.current, ?_, h.persisted, h.positive, trivial, h.ready⟩
      have hsplit := h.split
      simp only [inFlight, hflush] at hsplit
      simpa [inFlight] using hsplit
  | flushWrite ok =>
    simp only [LogBuffer.step, LogBuffer.flushWrite] at taken
    split at taken
    · rename_i batch hflush
      simp only [bind_eq_next, cassert_eq_next, pure_def, next.injEq] at taken
      obtain ⟨-, -, rfl⟩ := taken
      refine ⟨h.increasing, h.current, ?_, ?_, h.positive, ?_, h.ready⟩
      · have hsplit := h.split
        simp only [inFlight, hflush] at hsplit
        simpa [inFlight] using hsplit
      · rcases h.persisted with hzero | ⟨r, hr, hlsn⟩
        · exact .inl hzero
        · exact .inr ⟨r, List.mem_append_left _ hr, hlsn⟩
      · exact List.subset_append_right _ _
    · cases taken
  | flushPublish =>
    simp only [LogBuffer.step, LogBuffer.flushPublish] at taken
    split at taken
    · rename_i batch hflush
      have hdurable : batch ⊆ b.durable := by
        have := h.flushed
        simpa only [FlushInv, hflush] using this
      have hempty : b.inFlight = [] := by simp only [inFlight, hflush]
      split at taken <;> cases taken
      · obtain ⟨r, hr, hmax⟩ : ∃ r ∈ batch, r.lsn = maxLsn batch := by
          rcases maxLsn_spec batch with hzero | hmax
          · omega
          · exact hmax
        split
        · rename_i hlt
          exact h.publish hempty ⟨r, hdurable hr, hmax⟩ hlt.le
        · refine h.publish hempty ?_ le_rfl
          rcases h.persisted with hzero | hpersisted
          · omega
          · exact hpersisted
      · refine ⟨h.increasing, h.current, ?_, h.persisted, h.positive, Nat.zero_le _, h.ready⟩
        show b.enqueued = b.durable ++ ([] ++ b.logRecords)
        rw [h.split, hempty]
    · cases taken
  | flushEnd =>
    simp only [LogBuffer.step, LogBuffer.flushEnd] at taken
    split at taken
    · rename_i readyLsn hflush
      cases taken
      have hready : readyLsn ≤ b.persistLsn := by
        have := h.flushed
        simpa only [FlushInv, hflush] using this
      refine ⟨h.increasing, h.current, ?_, h.persisted, h.positive, trivial, ?_⟩
      · rw [h.split]
        simp only [inFlight, hflush]
      · split
        · exact hready
        · exact h.ready
    · cases taken

end

end LogInv

/-- The records that a step gives an LSN. -/
def Action.allocated (b : LogBuffer) : Action → List LogRecord
  | .updatePageLLSN log llsn =>
    [{ log with lsn := nextPageLLSN b.currentLLSN llsn, prevLsn := llsn }]
  | .addMetadataLog log => [{ log with lsn := b.currentLLSN + 1 }]
  | _ => []

/-- The durable records only grow. -/
theorem step_grows {a : Action} (taken : b.step a = .next b') :
    b.durable ⊆ b'.durable ∧ b'.issued = b.issued ++ a.allocated b := by
  cases a with
  | updatePageLLSN log pageLLSN =>
    simp only [LogBuffer.step, LogBuffer.updatePageLLSN, bind_eq_next, await_eq_next, pure_def,
      next.injEq] at taken
    obtain ⟨-, hfree, rfl⟩ := taken
    exact ⟨List.Subset.refl _, by simp [issued, hfree, Action.allocated]⟩
  | addMetadataLog log =>
    simp only [LogBuffer.step, LogBuffer.addMetadataLog, bind_eq_next, await_eq_next, pure_def,
      next.injEq] at taken
    obtain ⟨-, hfree, rfl⟩ := taken
    exact ⟨List.Subset.refl _, by simp [issued, hfree, Action.allocated]⟩
  | addToLogNoBlock =>
    simp only [LogBuffer.step, LogBuffer.addToLogNoBlock] at taken
    split at taken <;> cases taken
    rename_i log hmtx
    exact ⟨List.Subset.refl _, by simp [issued, hmtx, Action.allocated]⟩
  | flushTake =>
    simp only [LogBuffer.step, LogBuffer.flushTake, bind_eq_next] at taken
    obtain ⟨-, -, taken⟩ := taken
    split at taken <;> cases taken <;> exact ⟨List.Subset.refl _, (List.append_nil _).symm⟩
  | flushWrite ok =>
    simp only [LogBuffer.step, LogBuffer.flushWrite] at taken
    split at taken
    · simp only [bind_eq_next, cassert_eq_next, pure_def, next.injEq] at taken
      obtain ⟨-, -, rfl⟩ := taken
      exact ⟨List.subset_append_left _ _, (List.append_nil _).symm⟩
    · cases taken
  | flushPublish =>
    simp only [LogBuffer.step, LogBuffer.flushPublish] at taken
    split at taken
    · split at taken <;> cases taken <;> exact ⟨List.Subset.refl _, (List.append_nil _).symm⟩
    · cases taken
  | flushEnd =>
    simp only [LogBuffer.step, LogBuffer.flushEnd] at taken
    split at taken <;> cases taken
    exact ⟨List.Subset.refl _, (List.append_nil _).symm⟩

theorem subset_step {a : Action} (taken : b.step a = .next b') :
    b.durable ⊆ b'.durable ∧ b.issued ⊆ b'.issued := by
  obtain ⟨hdurable, hissued⟩ := step_grows taken
  exact ⟨hdurable, hissued ▸ List.subset_append_left _ _⟩

theorem logInv_init : LogInv init where
  increasing := List.Pairwise.nil
  current := by simp [init, issued]
  split := rfl
  persisted := .inl rfl
  positive := by simp [init, issued]
  flushed := trivial
  ready := le_rfl

theorem logInv_of_run {allowed : LogBuffer → Action → Prop}
    (run : Run LogBuffer.step allowed init b) : LogInv b :=
  run.invariant logInv_init fun h _ taken => h.step taken

/-- In every interleaving of the node's threads the records are queued in the order of their LSNs;
every record of the node up to `persist_lsn` has been acknowledged by storage; and so a wait for an
LSN returns only when all records up to it have been. -/
theorem persist_lsn_watermark (run : Run LogBuffer.step (fun _ _ => True) init b) :
    b.enqueued.Pairwise (·.lsn < ·.lsn) ∧
      (∀ l, l ≤ b.persistLsn → ∀ r ∈ b.issued, r.lsn ≤ l → r ∈ b.durable) ∧
      ∀ l, b.waitLogFlush l = .next () → ∀ r ∈ b.issued, r.lsn ≤ l → r ∈ b.durable := by
  have h := logInv_of_run run
  have hmark : ∀ l, l ≤ b.persistLsn → ∀ r ∈ b.issued, r.lsn ≤ l → r ∈ b.durable := by
    intro l hl r hr hle
    by_contra hrd
    have := h.persist_lt hr hrd
    omega
  refine ⟨h.increasing_enqueued, hmark, fun l hwait => hmark l ?_⟩
  simpa only [waitLogFlush, await_eq_next] using hwait

/-- A page arrives with LLSN 1000, is changed and flushed together with a commit record, and is
changed once more. -/
def arrivedPageRun : List Action :=
  let log : LogRecord := { lsn := 0, prevLsn := 0, logNodeId := 1, body := .commit, fits := by decide }
  [.updatePageLLSN log 1000, .addToLogNoBlock, .addMetadataLog log, .addToLogNoBlock, .flushTake,
    .flushWrite true, .flushPublish, .updatePageLLSN log 1001, .flushEnd, .addToLogNoBlock]

theorem persist_lsn_watermark_arrivedPage :
    ∃ b, Run LogBuffer.step (fun _ _ => True) init b ∧ b.persistLsn = 1002 ∧
      b.enqueued.map (·.lsn) = [1001, 1002, 1003] ∧
      ∀ r ∈ b.issued, r.lsn ≤ 1002 → r ∈ b.durable := by
  obtain ⟨b, run, hb⟩ := Run.of_reaches LogBuffer.step (fun _ _ => True) arrivedPageRun init
    (fun b => decide (b.persistLsn = 1002 ∧ b.enqueued.map (·.lsn) = [1001, 1002, 1003]))
    (by decide +kernel)
  obtain ⟨hpersist, hlsns⟩ := of_decide_eq_true hb
  exact ⟨b, run, hpersist, hlsns, (persist_lsn_watermark run).2.1 1002 hpersist.ge⟩

end LogBuffer

end Logging
