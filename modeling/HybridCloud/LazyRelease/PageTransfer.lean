import HybridCloud.LazyRelease.Protocol
import HybridCloud.Logging.LogBuffer

/-!
# Page transfer and the log

The protocol of `LazyRelease.Protocol` together with the logs of the nodes, for one heap page. A node
must not let a version of the page go before its log record is durable, and it waits for that in
`PushPageToOther` (src/compute_server/server.cc) and in the eviction loop
(`put_page_into_buffe_lazy` in src/compute_server/server.h).

`PushPageToOther` is not one step here. The direct path copies the page, calls `wait_log_flush(page)`,
which looks at the dirty flag, reads the LLSN in the header, waits for `persist_lsn` and clears the
flag, and only then sends. The scheduled path copies the page and leaves the task to the push scheduler
(src/core/fiber/scheduler.cc). Anything may happen between these parts. The record of the protocol that
stands for the calling thread stays where it is until the call returns, and identifies the call.

A thread keeps a pointer to the frame. The LLSN and the dirty flag are therefore kept per frame, and
every stay of the page in the buffer pool has a frame of its own.
-/

namespace PageTransfer

open GPLM LazyRelease Logging Storage Outcome Function

/-- What a frame of the buffer pool says about the page. -/
structure Frame where
  /-- `LLSN_` in the page header. -/
  llsn : Nat
  /-- `is_dirty_` -/
  dirty : Bool
  deriving DecidableEq

/-- The thread that calls `PushPageToOther`. -/
inductive Caller (N : Nat) where
  | release (r : Release)
  | pending (h : PendingHandler N)
  /-- The handler of `NotifyPushPage`, for the fetch `f` of node `n`. -/
  | notify (n : NodeId N) (f : Fetch N)
  /-- A fetch, for the nodes granted in the same round. -/
  | fetch (f : Fetch N)
  deriving DecidableEq

/-- Where a call of `wait_log_flush` with a page is. -/
inductive LogWait where
  /-- The dirty flag has not been looked at. -/
  | entering
  /-- It waits for `persist_lsn`. -/
  | waiting (requiredLsn : Nat)
  /-- It has returned. -/
  | done
  deriving DecidableEq

/-- A call of `PushPageToOther` after the page has been copied. -/
structure PushCall (N : Nat) (α : Type) where
  src : NodeId N
  dest : NodeId N
  caller : Caller N
  /-- Whether the call takes the path of the push scheduler. -/
  scheduled : Bool
  /-- `page` -/
  frame : Nat
  pageData : Page α
  /-- The progress of `wait_log_flush`, on the direct path. -/
  wait : LogWait
  deriving DecidableEq

/-- A task of the push scheduler. -/
structure PushTask (N : Nat) (α : Type) where
  src : NodeId N
  dest : NodeId N
  pageData : Page α
  /-- `can_push_page` -/
  canPush : Bool
  waitLsn : Nat
  deriving DecidableEq

/-- An eviction of the page between `getUnlockType` and `BufferReleaseUnlock`. -/
structure EvictCall where
  frame : Nat
  wait : LogWait
  deriving DecidableEq

/-- The protocol, the logs and the transfers of the page. -/
structure State (N : Nat) (α : Type) where
  sys : LazyRelease.State N α
  logs : NodeId N → LogBuffer
  /-- The frame that holds the page, or that held it last. -/
  frame : NodeId N → Nat
  frames : NodeId N → Nat → Frame
  calls : List (PushCall N α)
  tasks : List (PushTask N α)
  /-- The evictions that wait for the log. -/
  evict : NodeId N → Option EvictCall
  /-- Ghost: the images that have been sent in PushPage messages. -/
  sent : List (Page α)
  /-- Ghost: the LLSNs that `BufferReleaseUnlock` has published. -/
  published : List Nat

variable {N : Nat} {α : Type}

/-! ## The callers of `PushPageToOther` -/

/-- How many threads of node `src` are where `c` calls `PushPageToOther`. -/
def atPush (s : LazyRelease.State N α) (src : NodeId N) : Caller N → Nat
  | .release r => if r.pushed = none then (s.nodes src).releases.count r else 0
  | .pending h => if 0 < h.unlockRemote then (s.nodes src).handlers.count h else 0
  | .notify n f => if f.stage = .notifying src then (s.nodes n).fetches.count f else 0
  | .fetch f =>
    match f.stage with
    | .pushing (_ :: _) => (s.nodes src).fetches.count f
    | _ => 0

/-- The node that the page is pushed to, if any. -/
def destOf (s : LazyRelease.State N α) (src : NodeId N) : Caller N → Option (NodeId N)
  | .release r =>
    if r.x = true ∧ r.unlockRemote = 0 then none else (s.nodes src).lk.destNodeId
  | .pending h => h.dest
  | .notify n _ => some n
  | .fetch f =>
    match f.stage with
    | .pushing pushList => pushList.getLast?
    | _ => none

/-- The caller goes on after `PushPageToOther`. -/
def afterPush (s : LazyRelease.State N α) (src : NodeId N) :
    Caller N → Outcome (LazyRelease.State N α)
  | .release r =>
    let nd := s.nodes src
    return s.setNode src { nd with
      releases := { r with pushed := some true } :: nd.releases.erase r }
  | .pending h => do
    let nd := s.nodes src
    cassert (nd.buffer.isSome = true)
    return s.setNode src { nd with
      buffer := none
      handlers := nd.handlers.erase h
      unlocks := ⟨false, false⟩ :: nd.unlocks }
  | .notify n f =>
    let s := s.setNode n ((s.nodes n).setStage f (.answered (.pushFrom src)))
    return { s with dir := s.dir.notifyPushPageDone }
  | .fetch f =>
    match f.stage with
    | .pushing pushList =>
      return s.setNode src ((s.nodes src).setStage f (.pushing pushList.dropLast))
    | _ => blocked

/-- `PushPage` is on its way to `dest`. -/
def sendPage (s : LazyRelease.State N α) (dest : NodeId N) (page : Page α) :
    LazyRelease.State N α :=
  s.setNode dest { s.nodes dest with pushes := (s.nodes dest).pushes ++ [page] }

namespace State

/-- Nobody has the page. -/
def init (base : Page α) : State N α where
  sys := .init base
  logs _ := .init
  frame _ := 0
  frames _ _ := ⟨base.llsn, false⟩
  calls := []
  tasks := []
  evict _ := none
  sent := []
  published := []

/-- The version `llsn` of the page is the stored one, or the record that led to it is durable. -/
def Durable (key : PageKey) (s : State N α) (llsn : Nat) : Prop :=
  llsn = s.sys.base.llsn ∨
    ∃ n, ∃ r ∈ (s.logs n).durable, r.pageForLog = some key ∧ r.lsn = llsn

instance (key : PageKey) (s : State N α) (llsn : Nat) : Decidable (s.Durable key llsn) :=
  inferInstanceAs (Decidable (_ ∨ _))

/-- How many threads of node `src` are inside of `PushPageToOther`, called as `c`. -/
def busy (s : State N α) (src : NodeId N) (c : Caller N) : Nat :=
  s.calls.countP fun call => call.src = src ∧ call.caller = c

/-- One frame is written. -/
def setFrame (s : State N α) (n : NodeId N) (k : Nat) (frame : Frame) : State N α :=
  { s with frames := update s.frames n (update (s.frames n) k frame) }

/-- `insert_or_replace`: the page is put into a frame. -/
def newFrame (s : State N α) (n : NodeId N) (llsn : Nat) : State N α :=
  { s.setFrame n (s.frame n + 1) ⟨llsn, false⟩ with
    frame := update s.frame n (s.frame n + 1) }

/-- The next part of `wait_log_flush(page)`. -/
def waitLogFlush (s : State N α) (n : NodeId N) (k : Nat) :
    LogWait → Outcome (State N α × LogWait)
  | .entering =>
    let frame := s.frames n k
    return (s, if frame.dirty then .waiting frame.llsn else .done)
  | .waiting requiredLsn => do
    (s.logs n).waitLogFlush requiredLsn
    return (s.setFrame n k { s.frames n k with dirty := false }, .done)
  | .done => blocked

/-! ## Pushing -/

/-- `PushPageToOther` up to the copy of the page. -/
def startPush (s : State N α) (src : NodeId N) (c : Caller N) (scheduled : Bool) :
    Outcome (State N α) := do
  await (s.busy src c < atPush s.sys src c)
  match destOf s.sys src c, (s.sys.nodes src).buffer with
  | some dest, some page =>
    cassert (dest ≠ src)
    return { s with
      calls := ⟨src, dest, c, scheduled, s.frame src, page, .entering⟩ :: s.calls }
  | some _, none =>
    match c with
    | .notify _ _ => blocked -- `wait_in_bufferPool`
    | _ => abort
  | none, _ => blocked

variable [DecidableEq α]

/-- A part of the wait on the direct path. -/
def pushWait (s : State N α) (call : PushCall N α) : Outcome (State N α) := do
  await (call ∈ s.calls ∧ call.scheduled = false)
  let (s, wait) ← s.waitLogFlush call.src call.frame call.wait
  return { s with calls := { call with wait := wait } :: s.calls.erase call }

/-- The direct path sends the copy and returns. -/
def pushSend (s : State N α) (call : PushCall N α) : Outcome (State N α) := do
  await (call ∈ s.calls ∧ call.scheduled = false ∧ call.wait = .done)
  let sys ← afterPush (sendPage s.sys call.dest call.pageData) call.src call.caller
  return { s with
    sys := sys, calls := s.calls.erase call, sent := s.sent ++ [call.pageData] }

/-- The scheduled path looks at the dirty flag and at `persist_lsn`, hands the task over and
returns. -/
def schedule (s : State N α) (call : PushCall N α) : Outcome (State N α) := do
  await (call ∈ s.calls ∧ call.scheduled = true)
  let waitLsn := call.pageData.llsn
  let canPush := !((s.frames call.src call.frame).dirty &&
    decide ((s.logs call.src).persistLsn < waitLsn))
  let sys ← afterPush s.sys call.src call.caller
  return { s with
    sys := sys
    calls := s.calls.erase call
    tasks := ⟨call.src, call.dest, call.pageData, canPush, waitLsn⟩ :: s.tasks }

/-- `push_page_run` finds a task that may run, and runs it. -/
def runTask (s : State N α) (task : PushTask N α) : Outcome (State N α) := do
  await (task ∈ s.tasks ∧ (task.canPush = true ∨ task.waitLsn = 0 ∨
    task.waitLsn ≤ (s.logs task.src).pushReadyLsn))
  return { s with
    sys := sendPage s.sys task.dest task.pageData
    tasks := s.tasks.erase task
    sent := s.sent ++ [task.pageData] }

/-! ## Evicting -/

/-- The eviction looks up the mode of the page. If the node has it, the mutex stays taken. -/
def evictStart (s : State N α) (n : NodeId N) : Outcome (State N α) := do
  let nd := s.sys.nodes n
  await (.chosen ∈ nd.evicts ∧ s.evict n = none)
  let (lk, unlockRemote) ← nd.lk.getUnlockType
  if unlockRemote = 0 then
    return { s with sys := s.sys.setEvict n lk.unlockMtx .chosen .ending }
  else
    cassert (nd.buffer.isSome = true)
    return { s with
      sys := s.sys.setNode n { nd with lk := lk }
      evict := update s.evict n (some ⟨s.frame n, .entering⟩) }

/-- A part of the eviction's wait. -/
def evictWait (s : State N α) (n : NodeId N) : Outcome (State N α) :=
  match s.evict n with
  | none => blocked
  | some e => do
    let (s, wait) ← s.waitLogFlush n e.frame e.wait
    return { s with evict := update s.evict n (some { e with wait := wait }) }

/-- The eviction reads the LLSN of the page and sends `BufferReleaseUnlock`. -/
def evictAsk (s : State N α) (n : NodeId N) : Outcome (State N α) :=
  match s.evict n, (s.sys.nodes n).buffer with
  | some e, some page => do
    await (e.wait = .done)
    return { s with
      sys := s.sys.setEvict n (s.sys.nodes n).lk.unlockMtx .chosen (.asking page.llsn)
      evict := update s.evict n none
      published := s.published ++ [page.llsn] }
  | some _, none => abort
  | none, _ => blocked

/-! ## Everything else -/

/-- A writer logs a change of the page. -/
def write (key : PageKey) (s : State N α) (n : NodeId N) (f : α → α) (log : LogRecord) :
    Outcome (State N α) :=
  match (s.sys.nodes n).buffer with
  | none => abort
  | some page => do
    await (log.pageForLog = some key)
    let b ← (s.logs n).updatePageLLSN log page.llsn
    let sys ← s.sys.write n f b.currentLLSN
    return { s.setFrame n (s.frame n) ⟨b.currentLLSN, true⟩ with
      sys := sys, logs := update s.logs n b }

/-- A writer changes the page without a log record. -/
def writeUnlogged (s : State N α) (n : NodeId N) (f : α → α) : Outcome (State N α) := do
  let sys ← s.sys.writeUnlogged n f
  return { s.setFrame n (s.frame n) { s.frames n (s.frame n) with dirty := true } with sys := sys }

/-- The page is read from storage, which has redone `k` durable records of it. -/
def readStorage (key : PageKey) (s : State N α) (n : NodeId N) (f : Fetch N) (k : Nat) :
    Outcome (State N α) := do
  await (∀ r ∈ s.sys.log.take k, s.Durable key r.1)
  let sys ← s.sys.readStorage n f k
  return { s.newFrame n (replay s.sys.base (s.sys.log.take k)).llsn with sys := sys }

/-- A pushed page arrives, in a new frame. -/
def pushArrive (s : State N α) (n : NodeId N) (page : Page α) : Outcome (State N α) := do
  let sys ← s.sys.pushArrive n page
  return { s.newFrame n page.llsn with sys := sys }

/-- The steps of the protocol that touch neither the page nor the log. A release or a Pending handler
that has nobody to push to must not be one that is inside of `PushPageToOther`. -/
def plain (s : State N α) : LazyRelease.Action N α → Bool
  | .write _ _ _ | .writeUnlogged _ _ | .readStorage _ _ _ | .pushArrive _ _ => false
  | .evictCheck _ | .notifyPush _ _ | .pushNext _ _ => false
  | .releasePush n r =>
    destOf s.sys n (.release r) = none ∧ s.busy n (.release r) < atPush s.sys n (.release r)
  | .pendingFinish n h =>
    h.unlockRemote = 0 ∨
      h.dest = none ∧ s.busy n (.pending h) < atPush s.sys n (.pending h)
  | .evictLost n => (s.evict n).isNone
  | _ => true

/-- A step of the protocol that none of the others refines. -/
def protocol (s : State N α) (a : LazyRelease.Action N α) : Outcome (State N α) := do
  await (s.plain a = true)
  let sys ← s.sys.step a
  return { s with sys := sys }

end State

/-- A step of a node's log that is not about this page. -/
def State.log (key : PageKey) (s : State N α) (n : NodeId N) (a : LogBuffer.Action) :
    Outcome (State N α) := do
  await (pageOf a ≠ some key)
  let b ← (s.logs n).step a
  return { s with logs := update s.logs n b }

/-- The steps of the protocol, with the log and with the calls of a push taken apart. -/
inductive Action (N : Nat) (α : Type) where
  | protocol (a : LazyRelease.Action N α)
  | log (n : NodeId N) (a : LogBuffer.Action)
  | write (n : NodeId N) (f : α → α) (log : LogRecord)
  | writeUnlogged (n : NodeId N) (f : α → α)
  | readStorage (n : NodeId N) (f : Fetch N) (k : Nat)
  | pushArrive (n : NodeId N) (page : Page α)
  | startPush (src : NodeId N) (c : Caller N) (scheduled : Bool)
  | pushWait (call : PushCall N α)
  | pushSend (call : PushCall N α)
  | schedule (call : PushCall N α)
  | runTask (task : PushTask N α)
  | evictStart (n : NodeId N)
  | evictWait (n : NodeId N)
  | evictAsk (n : NodeId N)

/-- One step. -/
def step [DecidableEq α] (key : PageKey) (s : State N α) : Action N α → Outcome (State N α)
  | .protocol a => s.protocol a
  | .log n a => s.log key n a
  | .write n f log => s.write key n f log
  | .writeUnlogged n f => s.writeUnlogged n f
  | .readStorage n f k => s.readStorage key n f k
  | .pushArrive n page => s.pushArrive n page
  | .startPush src c scheduled => s.startPush src c scheduled
  | .pushWait call => s.pushWait call
  | .pushSend call => s.pushSend call
  | .schedule call => s.schedule call
  | .runTask task => s.runTask task
  | .evictStart n => s.evictStart n
  | .evictWait n => s.evictWait n
  | .evictAsk n => s.evictAsk n

end PageTransfer
