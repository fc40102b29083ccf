import HybridCloud.Storage.LogRecord
import HybridCloud.Lib.Transition

/-!
# The log of a compute node

Every compute node numbers its log records with one counter, collects them in `log_records` and
writes them to storage in batches (src/compute_server/server.h). The counter jumps past the LLSN of
a page that comes from another node.

`log_mtx` is taken in `UpdatePageLLSN`, where the LSN is allocated, and released in
`AddToLogNoBlock`, after the record has been queued; in between the model keeps the record in
`logMtx`. `LogFlush` holds `log_flush_mtx_` from beginning to end, so there is at most one flush; its
stages are separate steps, and anything may happen between them.

Threads of the node call these functions in any order. `enqueued` and `durable` are ghosts.
-/

namespace Logging

open Outcome Storage

/-- Where a call of `LogFlush` is. -/
inductive Flush where
  /-- The batch has been taken out of `log_records`. -/
  | writing (batch : List LogRecord)
  /-- `LogWrite` has returned without an error. -/
  | acknowledged (batch : List LogRecord)
  /-- `persist_lsn` has been raised; the push scheduler is still to be told. -/
  | published (readyLsn : Nat)
  deriving DecidableEq

/-- What a compute node keeps about its log. -/
structure LogBuffer where
  currentLLSN : Nat
  /-- `log_mtx`, with the record of the thread that has taken it. -/
  logMtx : Option LogRecord
  logRecords : List LogRecord
  /-- `log_flush_mtx_`, with the progress of the flush that has taken it. -/
  flush : Option Flush
  persistLsn : Nat
  /-- `m_push_ready_lsn` of the push scheduler. -/
  pushReadyLsn : Nat
  /-- Ghost: the records put into `log_records` so far, in order. -/
  enqueued : List LogRecord
  /-- Ghost: the records that a successful `LogWrite` has acknowledged. -/
  durable : List LogRecord
  deriving DecidableEq

/-- `update_page_llsn`: the LLSN that a page with LLSN `pageLLSN` gets on a node whose counter stands
at `current`. It is also the new value of the counter. -/
def nextPageLLSN (current pageLLSN : Nat) : Nat :=
  if current + 1 ≤ pageLLSN then pageLLSN + 1 else current + 1

theorem lt_nextPageLLSN (current pageLLSN : Nat) :
    current < nextPageLLSN current pageLLSN ∧ pageLLSN < nextPageLLSN current pageLLSN := by
  unfold nextPageLLSN
  split <;> omega

namespace LogBuffer

/-- A node that has just started. -/
def init : LogBuffer where
  currentLLSN := 0
  logMtx := none
  logRecords := []
  flush := none
  persistLsn := 0
  pushReadyLsn := 0
  enqueued := []
  durable := []

/-- The records that have got an LSN. -/
def issued (b : LogBuffer) : List LogRecord := b.enqueued ++ b.logMtx.toList

/-- `AddUpdateLog`, `AddInsertLog`, `AddDeleteLog` or `AddLockLog` up to the end of
`UpdatePageLLSN`: the record `log` is about a page with LLSN `pageLLSN`. -/
def updatePageLLSN (b : LogBuffer) (log : LogRecord) (pageLLSN : Nat) : Outcome LogBuffer := do
  await (b.logMtx = none)
  let lsn := nextPageLLSN b.currentLLSN pageLLSN
  return { b with
    currentLLSN := lsn
    logMtx := some { log with lsn := lsn, prevLsn := pageLLSN } }

/-- `AddMetadataLog` up to the call of `AddToLogNoBlock`. -/
def addMetadataLog (b : LogBuffer) (log : LogRecord) : Outcome LogBuffer := do
  await (b.logMtx = none)
  let lsn := b.currentLLSN + 1
  return { b with currentLLSN := lsn, logMtx := some { log with lsn := lsn } }

/-- The record is queued, and the mutex released. -/
def addToLogNoBlock (b : LogBuffer) : Outcome LogBuffer :=
  match b.logMtx with
  | none => .blocked
  | some log => return { b with
      logMtx := none
      logRecords := b.logRecords ++ [log]
      enqueued := b.enqueued ++ [log] }

/-- `LogFlush` up to the call of `LogWrite`; without records it returns at once. -/
def flushTake (b : LogBuffer) : Outcome LogBuffer := do
  await (b.flush = none ∧ b.logMtx = none)
  if b.logRecords = [] then
    return b
  else
    return { b with flush := some (.writing b.logRecords), logRecords := [] }

/-- `LogWrite` returns; a failure ends the process. -/
def flushWrite (b : LogBuffer) (ok : Bool) : Outcome LogBuffer :=
  match b.flush with
  | some (.writing batch) => do
    cassert (ok = true)
    return { b with flush := some (.acknowledged batch), durable := b.durable ++ batch }
  | _ => .blocked

/-- The largest LSN of a batch, computed as in the source. -/
def maxLsn (batch : List LogRecord) : Nat :=
  batch.foldl (fun maxLsn log => if maxLsn < log.lsn then log.lsn else maxLsn) 0

/-- `LogFlush` raises `persist_lsn`. -/
def flushPublish (b : LogBuffer) : Outcome LogBuffer :=
  match b.flush with
  | some (.acknowledged batch) =>
    if 0 < maxLsn batch then
      let persistLsn := if b.persistLsn < maxLsn batch then maxLsn batch else b.persistLsn
      return { b with flush := some (.published persistLsn), persistLsn := persistLsn }
    else
      return { b with flush := some (.published 0) }
  | _ => .blocked

/-- `LogFlush` calls `markPushReady` and returns. -/
def flushEnd (b : LogBuffer) : Outcome LogBuffer :=
  match b.flush with
  | some (.published readyLsn) => return { b with
      flush := none
      pushReadyLsn := if b.pushReadyLsn < readyLsn then readyLsn else b.pushReadyLsn }
  | _ => .blocked

/-- `wait_log_flush` of an LSN returns. -/
def waitLogFlush (b : LogBuffer) (requireLsn : Nat) : Outcome Unit :=
  await (requireLsn ≤ b.persistLsn)

/-- The steps of writers and of the flush thread. -/
inductive Action where
  | updatePageLLSN (log : LogRecord) (pageLLSN : Nat)
  | addMetadataLog (log : LogRecord)
  | addToLogNoBlock
  | flushTake
  | flushWrite (ok : Bool)
  | flushPublish
  | flushEnd

/-- One step. -/
def step (b : LogBuffer) : Action → Outcome LogBuffer
  | .updatePageLLSN log pageLLSN => b.updatePageLLSN log pageLLSN
  | .addMetadataLog log => b.addMetadataLog log
  | .addToLogNoBlock => b.addToLogNoBlock
  | .flushTake => b.flushTake
  | .flushWrite ok => b.flushWrite ok
  | .flushPublish => b.flushPublish
  | .flushEnd => b.flushEnd

end LogBuffer

/-- The page that a step of a node's log gives an LSN to. -/
def pageOf : LogBuffer.Action → Option PageKey
  | .updatePageLLSN log _ => log.pageForLog
  | .addMetadataLog log => log.pageForLog
  | _ => none

end Logging
