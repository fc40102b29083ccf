import HybridCloud.Storage.LogRecord
import HybridCloud.Lib.Transition

/-!
# WAL replay on the storage node

`LogReplay` (src/core/storage/logreplay.cc) reads the WAL of every compute node and redoes the
records on the stored heap pages. The records of one page come from several nodes, so they are
ordered by their LLSN chain only: a record whose predecessor has not been applied is parked in
`waiting_` and released by `Dispatch` when the page reaches its `prev_lsn_`.

`ReplayError`, a failed `assert` and an exception that nobody catches all end the process; the model
says `abort` for each of them.

`Dispatch` and `ReadStream` take the redo of one record as a parameter: `applySingleLog` writes a row
into its slot, and `applyRow` of `RowEnd` also sees where the page ends.

A stream keeps the records of its file, split where `read_offset` stands, so that the offset is
always at a record boundary. `writes` is a ghost: the write calls made so far, in order.
-/

namespace Storage

open Outcome

/-- The version check that every case of `apply_single_log` makes before it changes a page. -/
def LogRecord.followsOn (log : LogRecord) (hdr : RmPageHdr) : Prop :=
  ¬ (log.lsn ≤ hdr.llsn ∨ log.prevLsn ≠ hdr.llsn)

instance (log : LogRecord) (hdr : RmPageHdr) : Decidable (log.followsOn hdr) :=
  inferInstanceAs (Decidable (¬ _))

/-- The header after a record has been redone: the LLSN pair moves on. -/
def RmPageHdr.advance (hdr : RmPageHdr) (lsn : Nat) : RmPageHdr :=
  { hdr with preLLSN := hdr.llsn, llsn := lsn }

/-- The `DataItem` that redo of a LOCK record writes back. -/
def DataItem.withLock (item : DataItem) (lockType : UInt64) (timeStamp : Nat)
    (holderNode lockOwnerNode : UInt8) : DataItem :=
  { item with
    lock := lockType, timeStamp := timeStamp, holderNode := holderNode,
    lockOwnerNode := lockOwnerNode }

/-- `LogReplay::apply_single_log` on a heap page: all reads and checks come before the writes, and
the result is the list of write calls. -/
def LogBody.redoWrites (fileHdr : RmFileHdr) (log : LogRecord) (page : Page) :
    LogBody → Outcome (List PageWrite)
  | .insert _ rid value => do
    cassert (rid.slotNo < fileHdr.numRecordsPerPage)
    cassert (log.followsOn page.hdr)
    cassert (page.bitmap rid.slotNo = false)
    let hdr := page.hdr.advance log.lsn
    return [.writePage
      { hdr := { hdr with numRecords := hdr.numRecords + 1 }
        bitmap := Function.update page.bitmap rid.slotNo true
        slots := Function.update page.slots rid.slotNo
          ((page.slots rid.slotNo).overwrite value) }]
  | .delete _ rid => do
    cassert (rid.slotNo < fileHdr.numRecordsPerPage)
    cassert (log.followsOn page.hdr)
    cassert (page.bitmap rid.slotNo = true)
    cassert ((page.slots rid.slotNo).item.valid = 1)
    cassert ((page.slots rid.slotNo).item.lock = EXCLUSIVE_LOCKED)
    let hdr := page.hdr.advance log.lsn
    return [.writePage
      { page with
        hdr := { hdr with numRecords := hdr.numRecords - 1 }
        bitmap := Function.update page.bitmap rid.slotNo false }]
  | .update _ rid value => do
    cassert (rid.slotNo < fileHdr.numRecordsPerPage)
    cassert (log.followsOn page.hdr)
    return [.updateTuple rid.slotNo value, .updateHdr (page.hdr.advance log.lsn)]
  | .lock _ rid lockType timeStamp holderNode lockOwnerNode => do
    cassert (rid.slotNo < fileHdr.numRecordsPerPage)
    cassert (log.followsOn page.hdr)
    let item := (page.slots rid.slotNo).item
    return [.updateItem rid.slotNo (item.withLock lockType timeStamp holderNode lockOwnerNode),
      .updateHdr (page.hdr.advance log.lsn)]
  | .newPage _ => .abort
  | .fsmUpdate _ | .prepared _ | .batchEnd | .begin | .commit | .abort =>
    -- nothing on a heap page
    return []

/-- The WAL of one node, as replay reads it. -/
structure Stream where
  node : Nat
  /-- The records before `read_offset`. -/
  consumed : List LogRecord
  /-- The records from `read_offset` to the end of the file. -/
  rest : List LogRecord
  /-- How many bytes of the file are known to be durable. -/
  durableEnd : Nat

namespace Stream

/-- `read_offset`. -/
def readOffset (st : Stream) : Nat := walBytes st.consumed

/-- The stream of a node whose file is empty or missing. -/
def empty (node : Nat) : Stream := { node := node, consumed := [], rest := [], durableEnd := 0 }

end Stream

/-- Replay, and the disk that it works on. -/
structure LogReplay where
  disk : Disk
  /-- `waiting_`: the parked records; the map's keys are their pages and their `prev_lsn_`. -/
  waiting : List LogRecord
  pendingRecords : Nat
  /-- `streams_`: a node that is not registered has the empty stream. -/
  streams : Nat → Stream
  /-- Ghost: the write calls made so far. -/
  writes : List (PageKey × PageWrite)

namespace LogReplay

/-- `apply_single_log` of a record that changes the page `key`. -/
def applySingleLog (s : LogReplay) (key : PageKey) (log : LogRecord) : Outcome LogReplay := do
  let fileHdr ← s.disk.readFileHdr key.1
  let page ← s.disk.readPage key
  let ws ← log.body.redoWrites fileHdr log page
  return { s with
    disk := s.disk.performAll key ws
    writes := s.writes ++ ws.map (Prod.mk key) }

/-- Is `w` the record of page `key` that was made on version `lsn`? -/
def isSuccessor (key : PageKey) (lsn : Nat) (w : LogRecord) : Bool :=
  w.pageForLog == some key && w.prevLsn == lsn

section

-- how one record is redone: `applySingleLog`, or one that looks closer
variable (apply : LogReplay → PageKey → LogRecord → Outcome LogReplay)

/-- The loop of `Dispatch`: apply a record, then the parked record that follows on it, and so on.
The fuel bounds the rounds; each of them takes a record out of `waiting_`. -/
def applyChain : Nat → PageKey → LogRecord → LogReplay → Outcome LogReplay
  | 0, _, _, _ => .blocked
  | fuel + 1, key, current, s => do
    let s ← apply s key current
    match s.waiting.find? (isSuccessor key current.lsn) with
    | none => return s
    | some follower =>
      applyChain fuel key follower
        { s with
          waiting := s.waiting.erase follower
          pendingRecords := s.pendingRecords - 1 }

/-- `LogReplay::Dispatch`. -/
def dispatch (s : LogReplay) (log : LogRecord) : Outcome LogReplay :=
  match log.pageForLog with
  | none =>
    -- `apply_single_log` of a record that changes no heap page
    match log.body with
    | .newPage _ => .abort
    | _ => return s
  | some key => do
    let page ← s.disk.readPage key
    if log.lsn ≤ page.hdr.llsn then
      -- redo is already on the page
      return s
    else if page.hdr.llsn < log.prevLsn then do
      -- two successors for the same page LLSN are a replay error
      cassert (s.waiting.find? (isSuccessor key log.prevLsn) = none)
      return { s with
        waiting := s.waiting ++ [log]
        pendingRecords := s.pendingRecords + 1 }
    else do
      cassert (¬ (log.prevLsn ≠ page.hdr.llsn ∨ log.lsn ≤ log.prevLsn))
      applyChain apply (s.waiting.length + 1) key log s

/-- The loop of `ReadStream` over the records in the buffer: `size` bytes are left. The result has
the records that were consumed. -/
def readRecords (node : Nat) : List LogRecord → Nat → LogReplay →
    Outcome (LogReplay × List LogRecord)
  | [], _, s => return (s, [])
  | log :: rest, size, s =>
    if size < log.logTotLen then
      return (s, [])
    else do
      cassert (log.logNodeId = node)
      let s ← s.dispatch apply log
      let (s, consumed) ← readRecords node rest (size - log.logTotLen) s
      return (s, log :: consumed)

/-- `LogReplay::ReadStream`: whether the stream was not at its durable end. -/
def readStream (s : LogReplay) (node : Nat) : Outcome (LogReplay × Bool) := do
  let st := s.streams node
  let size := min (st.durableEnd - st.readOffset) LOG_REPLAY_BUFFER_SIZE
  if size = 0 then
    return (s, false)
  else do
    -- `pread` of the whole buffer
    cassert (size ≤ walBytes st.rest)
    let (s, consumed) ← readRecords apply st.node st.rest size s
    cassert (consumed ≠ [])
    let st := { st with
      consumed := st.consumed ++ consumed
      rest := st.rest.drop consumed.length }
    return ({ s with streams := Function.update s.streams node st }, true)

end

/-- `PublishDurable`. -/
def publishDurable (s : LogReplay) (node durableEnd : Nat) : LogReplay :=
  { s with
    streams := Function.update s.streams node
      { s.streams node with durableEnd := durableEnd } }

end LogReplay

/-- A WAL file, whose incomplete last record has been cut off. -/
structure WalFile where
  node : Nat
  records : List LogRecord
  deriving DecidableEq

namespace LogReplay

/-- Replay before any stream is registered. -/
def empty (disk : Disk) : LogReplay where
  disk := disk
  waiting := []
  pendingRecords := 0
  streams := Stream.empty
  writes := []

/-- `RegisterStream`. -/
def registerStream (s : LogReplay) (file : WalFile) (durableEnd : Nat) : LogReplay :=
  { s with
    streams := Function.update s.streams file.node
      { node := file.node, consumed := [], rest := file.records, durableEnd := durableEnd } }

/-- All files registered, with the given part of each of them durable. -/
def registerAll (disk : Disk) (files : List WalFile) (durableEnd : WalFile → Nat) : LogReplay :=
  files.foldl (fun s file => s.registerStream file (durableEnd file)) (empty disk)

/-- The body of the constructor's loop: read from every stream once. -/
def readStreams : List Nat → LogReplay → Outcome (LogReplay × Bool)
  | [], s => return (s, false)
  | node :: nodes, s => do
    let (s, progress) ← s.readStream applySingleLog node
    let (s, more) ← readStreams nodes s
    return (s, progress || more)

/-- The constructor's loop; it is left when no stream made progress. -/
def readUntilQuiet (nodes : List Nat) : Nat → LogReplay → Outcome LogReplay
  | 0, _ => .blocked
  | fuel + 1, s => do
    let (s, progress) ← readStreams nodes s
    if progress then readUntilQuiet nodes fuel s else return s

/-- `LogReplay::LogReplay`: the redo of everything in the existing WAL files. A record of another
node and a record whose predecessor is missing are replay errors. -/
def construct (disk : Disk) (files : List WalFile) : Outcome LogReplay := do
  cassert (∀ file ∈ files, ∀ log ∈ file.records, log.logNodeId = file.node)
  let s := registerAll disk files fun file => walBytes file.records
  let s ← readUntilQuiet (files.map (·.node)) (walBytes (files.flatMap (·.records)) + 1) s
  cassert (s.pendingRecords = 0)
  return s

/-- What happens to replay: a node's WAL grows durable, or the replay thread reads a stream. -/
inductive Action where
  | publishDurable (node durableEnd : Nat)
  | readStream (node : Nat)

/-- One step of the replay thread or of the log manager. -/
def stepWith (apply : LogReplay → PageKey → LogRecord → Outcome LogReplay) (s : LogReplay) :
    Action → Outcome LogReplay
  | .publishDurable node durableEnd => return s.publishDurable node durableEnd
  | .readStream node => do
    let (s, _) ← s.readStream apply node
    return s

/-- A step, with every record redone as `applySingleLog` does it. -/
def step (s : LogReplay) (a : Action) : Outcome LogReplay := s.stepWith applySingleLog a

/-- The log manager publishes growing ends, each of them the end of a record. -/
def Allowed (s : LogReplay) : Action → Prop
  | .publishDurable node durableEnd =>
    let st := s.streams node
    st.durableEnd ≤ durableEnd ∧
      ∃ i ≤ st.rest.length, durableEnd = st.readOffset + walBytes (st.rest.take i)
  | .readStream _ => True

instance (s : LogReplay) (a : Action) : Decidable (Allowed s a) :=
  match a with
  | .publishDurable _ _ => inferInstanceAs (Decidable (_ ∧ _))
  | .readStream _ => .isTrue trivial

end LogReplay

end Storage
