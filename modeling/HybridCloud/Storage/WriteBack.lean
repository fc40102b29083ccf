import HybridCloud.Storage.Proofs.RedoProofs

/-!
# `WritePage` against the replay thread

In eager release mode a node sends the whole page to storage at every X release
(`rpc_flush_page_to_storage`, src/compute_server/server.h), and the replay thread redoes the
node's log records on the same stored page. There is no common lock: `StoragePoolImpl::WritePage` is
one `pwrite` of the page, and `Dispatch` and `apply_single_log` read the header, check it, and write
in one or two `pwrite` calls. Here every `pread` and `pwrite` is a step of its own.

The nodes change the page under its X lock, so the records form one chain, and no record is made
while a call is in flight. The thread may be given any record that has been made.
-/

namespace Storage

open Outcome LogReplay

/-- Where the replay thread stands in `Dispatch`. -/
inductive ReplayThread where
  /-- Not in the middle of a record of this page. -/
  | idle
  /-- `Dispatch` has decided to apply the record. -/
  | apply (log : LogRecord)
  /-- Redo of a LOCK record has checked the header and has still to read the `DataItem`. -/
  | readItem (log : LogRecord) (slotNo : Nat) (lockType : UInt64) (timeStamp : Nat)
      (holderNode lockOwnerNode : UInt8) (hdr : RmPageHdr)
  /-- The writes that are still to be made. -/
  | write (log : LogRecord) (w : PageWrite) (ws : List PageWrite)

/-- The record that the thread is applying. -/
def ReplayThread.current : ReplayThread → Option LogRecord
  | .idle => none
  | .apply log | .readItem log _ _ _ _ _ _ | .write log _ _ => some log

/-- A write of the X holder, on its way. -/
structure WriteCall where
  image : Page
  landed : Bool

/-- One heap page of the storage node, the records made for it, and its two writers. -/
structure WriteBack where
  /-- The records made so far, in the order of the chain. -/
  made : List LogRecord
  /-- The newest version of the page. -/
  latest : Page
  stored : Page
  call : Option WriteCall
  /-- Ghost: the newest version whose `WritePage` has returned. -/
  returned : Nat
  /-- The records that were given to `Dispatch`. -/
  consumed : List LogRecord
  waiting : List LogRecord
  thread : ReplayThread

namespace WriteBack

/-- The steps of the X holder and of replay. -/
inductive Action where
  /-- The X holder changes its page and logs the change. -/
  | modify (log : LogRecord)
  /-- The X holder sends its page. -/
  | writePage
  | land
  | reply
  /-- `Dispatch` reads the header for a record and decides what to do with it. -/
  | dispatch (log : LogRecord)
  /-- The replay thread makes its next read or write call. -/
  | replay

/-- Nothing is logged. -/
def init (p : Page) : WriteBack where
  made := []
  latest := p
  stored := p
  call := none
  returned := p.hdr.llsn
  consumed := []
  waiting := []
  thread := .idle

/-- The first decision of `Dispatch`, on the header it has read. -/
def dispatch (key : PageKey) (s : WriteBack) (log : LogRecord) : Outcome WriteBack := do
  let s := { s with consumed := log :: s.consumed }
  let hdr := s.stored.hdr
  if log.lsn ≤ hdr.llsn then
    return s
  else if hdr.llsn < log.prevLsn then do
    cassert (s.waiting.find? (isSuccessor key log.prevLsn) = none)
    return { s with waiting := s.waiting ++ [log] }
  else do
    cassert (¬ (log.prevLsn ≠ hdr.llsn ∨ log.lsn ≤ log.prevLsn))
    return { s with thread := .apply log }

/-- The first page read of `apply_single_log` and the checks on it. -/
def applyRead (fileHdr : RmFileHdr) (log : LogRecord) (stored : Page) : Outcome ReplayThread :=
  match log.body with
  | .lock _ rid lockType timeStamp holderNode lockOwnerNode => do
    cassert (rid.slotNo < fileHdr.numRecordsPerPage)
    cassert (log.followsOn stored.hdr)
    return .readItem log rid.slotNo lockType timeStamp holderNode lockOwnerNode
      (stored.hdr.advance log.lsn)
  | body => do
    let ws ← body.redoWrites fileHdr log stored
    match ws with
    | [] => return .idle
    | w :: ws => return .write log w ws

/-- The loop of `Dispatch` after a record has been applied: go on with the parked record that
follows on it. -/
def applied (key : PageKey) (s : WriteBack) (log : LogRecord) : WriteBack :=
  match s.waiting.find? (isSuccessor key log.lsn) with
  | none => { s with thread := .idle }
  | some follower => { s with thread := .apply follower, waiting := s.waiting.erase follower }

/-- The next read or write call of the replay thread. -/
def replay (fileHdr : RmFileHdr) (key : PageKey) (s : WriteBack) : Outcome WriteBack :=
  match s.thread with
  | .idle => .blocked
  | .apply log => do
    let thread ← applyRead fileHdr log s.stored
    return { s with thread := thread }
  | .readItem log slotNo lockType timeStamp holderNode lockOwnerNode hdr =>
    let item := (s.stored.slots slotNo).item
    return { s with
      thread := .write log
        (.updateItem slotNo (item.withLock lockType timeStamp holderNode lockOwnerNode))
        [.updateHdr hdr] }
  | .write log w [] => return applied key { s with stored := s.stored.perform w } log
  | .write log w (w' :: ws) =>
    return { s with stored := s.stored.perform w, thread := .write log w' ws }

/-- One step. -/
def step (fileHdr : RmFileHdr) (key : PageKey) (s : WriteBack) : Action → Outcome WriteBack
  | .modify log =>
    match redoOnPage fileHdr log s.latest with
    | .next ws =>
      return { s with made := s.made ++ [log], latest := ws.foldl Page.perform s.latest }
    | _ => .blocked
  | .writePage => return { s with call := some { image := s.latest, landed := false } }
  | .land =>
    match s.call with
    | some c => return { s with stored := c.image, call := some { c with landed := true } }
    | none => .blocked
  | .reply =>
    match s.call with
    | some c => return { s with call := none, returned := c.image.hdr.llsn }
    | none => .blocked
  | .dispatch log => dispatch key s log
  | .replay => replay fileHdr key s

/-- The order of events that the X lock and the synchronous call enforce, and that the replay thread
handles each record once, one after the other. -/
def Allowed (key : PageKey) (s : WriteBack) : Action → Prop
  | .modify log => s.call.isNone ∧ log.pageForLog = some key
  | .writePage => s.call.isNone
  | .land => s.call.map (·.landed) = some false
  | .reply => s.call.map (·.landed) = some true
  | .dispatch log => s.thread.current = none ∧ log ∈ s.made ∧ log ∉ s.consumed
  | .replay => True

/-- No `WritePage` lands between the header read of `Dispatch` and the last write of redo. -/
def Undisturbed (s : WriteBack) : Action → Prop
  | .land => s.thread.current = none
  | _ => True

instance (key : PageKey) (s : WriteBack) (a : Action) : Decidable (Allowed key s a) :=
  match a with
  | .modify _ => inferInstanceAs (Decidable (_ ∧ _))
  | .writePage => inferInstanceAs (Decidable (_ = true))
  | .land => inferInstanceAs (Decidable (_ = _))
  | .reply => inferInstanceAs (Decidable (_ = _))
  | .dispatch _ => inferInstanceAs (Decidable (_ ∧ _ ∧ _))
  | .replay => .isTrue trivial

instance (s : WriteBack) (a : Action) : Decidable (Undisturbed s a) :=
  match a with
  | .land => inferInstanceAs (Decidable (_ = _))
  | .modify _ | .writePage | .reply | .dispatch _ | .replay => .isTrue trivial

end WriteBack

end Storage
