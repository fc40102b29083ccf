import HybridCloud.Storage.LogReplay
import HybridCloud.Logging.LogBuffer

/-!
# What transactions do to a heap page

The statements, commits and aborts of `DTX` (src/core/dtx/dtx_exe.cc) and of the SQL executors
(src/core/sql_executor/execution), as far as one heap page is concerned. Each of them works on the
page while it holds the page's X lock; the model takes such a critical section as one step, so that
the X lock is free in every state. What comes from outside the page is an argument of the step: the
row an index lookup or a scan has found, whether the row satisfies the conditions of a statement, the
waiter to which a tuple lock is handed over, the address of the page in the buffer.

`records` is the list of the records that the steps have logged for the page (`AddUpdateLog`,
`AddLockLog`, `AddDeleteLog`, `AddInsertLog` in src/compute_server/server.cc).
-/

namespace Dtx

open Outcome Storage Logging

/-- The table of the page. -/
structure Table where
  tableId : Int
  name : String
  /-- Whether `primary_key` is set. -/
  primaryKey : Bool
  pageNo : Nat
  fileHdr : RmFileHdr
  /-- The bytes of a row after its `DataItem`: `record_size_ - sizeof(DataItem)`. -/
  valueSize : Nat
  deriving DecidableEq

/-- What an SQL statement did to a row. -/
inductive WType where
  | insertTuple
  | deleteTuple
  | updateTuple
  deriving DecidableEq

/-- `WriteRecord` of a row of the page. -/
structure WriteRecord where
  wtype : WType
  slotNo : Nat
  /-- The value before the change. -/
  value : List UInt8
  key : UInt64
  deriving DecidableEq

/-- A fetched item of `read_write_set`: the transaction's copy of a row's value. -/
structure DataSetItem where
  slotNo : Nat
  value : List UInt8
  deriving DecidableEq

/-- Where a transaction is. -/
inductive Phase where
  | executing
  | committing (commitTs : Nat)
  | aborting
  deriving DecidableEq

/-- A transaction. -/
structure DTX where
  node : Nat
  readWriteSet : List DataSetItem
  /-- `read_keys`: the slots that the transaction has locked shared, each of them once. -/
  readKeys : List Nat
  /-- `write_keys`: the slots that the transaction has locked exclusively, each of them once. -/
  writeKeys : List Nat
  /-- `write_set`, last record first. -/
  writeSet : List WriteRecord
  phase : Phase
  deriving DecidableEq

/-- The page, its log and the transactions, which are named by their `start_ts`. -/
structure State where
  page : Page
  /-- `current_llsn_` of each node. -/
  currentLLSN : Nat → Nat
  records : List LogRecord
  txs : Nat → Option DTX

/-- The waiter that gets the lock of a tuple, from `PendingHandoff`. -/
structure Handoff where
  newHolderTs : Nat
  newHolderNode : Nat
  deriving DecidableEq

/-- What a log record has in place of a key that is not there: `(itemkey_t)(-1)`. -/
def noKey : UInt64 := 0xFFFFFFFFFFFFFFFF

/-- `memcpy` into the value of a row. -/
def copyInto (value : List UInt8) (offset : Nat) (bytes : List UInt8) : List UInt8 :=
  value.take offset ++ bytes ++ value.drop (offset + bytes.length)

/-- The key that a statement hands to the log. -/
def Table.pkPtr (tab : Table) (key : UInt64) : Option UInt64 :=
  if tab.primaryKey then some key else none

namespace State

/-- One row is written. -/
def setRow (s : State) (slotNo : Nat) (row : Tuple) : State :=
  { s with page := { s.page with slots := Function.update s.page.slots slotNo row } }

/-- One transaction is changed. -/
def setTx (s : State) (t : Nat) (tx : DTX) : State :=
  { s with txs := Function.update s.txs t (some tx) }

/-- `GetDataItemFromPage`, `GetDataItemFromPageRW`: finding a row writes its value pointer. -/
def getDataItem (s : State) (slotNo : Nat) (addr : UInt64) : Tuple :=
  let row := s.page.slots slotNo
  { row with item := { row.item with value := addr } }

/-- `UpdatePageLLSN` and `AddToLogNoBlock`. A row lies within a page, so its record fits the replay
buffer. -/
def addLog (s : State) (node : Nat) (body : LogBody) : Outcome State :=
  if fits : LOG_HEADER_SIZE + body.size ≤ LOG_REPLAY_BUFFER_SIZE then
    let lsn := nextPageLLSN (s.currentLLSN node) s.page.hdr.llsn
    let log := { lsn, prevLsn := s.page.hdr.llsn, logNodeId := node, body, fits }
    return { s with
      page := { s.page with hdr := s.page.hdr.advance lsn }
      currentLLSN := Function.update s.currentLLSN node lsn
      records := s.records ++ [log] }
  else .abort

variable (tab : Table)

/-- `AddUpdateLog`; a commit timestamp goes into the record only. -/
def addUpdateLog (s : State) (node : Nat) (item : DataItem) (key : Option UInt64) (slotNo : Nat)
    (value : List UInt8) (commitTs : Nat) : Outcome State :=
  let logItem := if commitTs ≠ 0 then { item with commitTimeStamp := commitTs } else item
  s.addLog node (.update tab.name ⟨tab.pageNo, slotNo⟩
    { key := key.getD noKey, item := logItem, value := value.take item.valueSize.toNat })

/-- `AddInsertLog`. -/
def addInsertLog (s : State) (node : Nat) (item : DataItem) (key : Option UInt64)
    (value : List UInt8) (slotNo : Nat) : Outcome State :=
  s.addLog node (.insert tab.name ⟨tab.pageNo, slotNo⟩
    { key := key.getD noKey, item := item, value := value.take item.valueSize.toNat })

/-- `AddDeleteLog`. -/
def addDeleteLog (s : State) (node : Nat) (slotNo : Nat) : Outcome State :=
  s.addLog node (.delete tab.name ⟨tab.pageNo, slotNo⟩)

/-- `AddLockLog`. -/
def addLockLog (s : State) (node : Nat) (slotNo : Nat) (lockType : UInt64) (timeStamp : Nat)
    (holderNode lockOwnerNode : Nat) : Outcome State :=
  s.addLog node (.lock tab.name ⟨tab.pageNo, slotNo⟩ lockType timeStamp
    (UInt8.ofNat holderNode) (UInt8.ofNat lockOwnerNode))

/-- `UnlockTupleWithHandoff`, and the release of the lock when there is nobody to hand it to. -/
def unlockTupleWithHandoff (item : DataItem) (holderTs : Nat) (handoff : Option Handoff) :
    Outcome DataItem := do
  cassert (item.lock = EXCLUSIVE_LOCKED ∧ item.timeStamp = holderTs)
  match handoff with
  | none => return { item with lock := UNLOCKED }
  | some h => return { item with
      timeStamp := h.newHolderTs
      holderNode := UInt8.ofNat h.newHolderNode
      lockOwnerNode := UInt8.ofNat h.newHolderNode }

/-! ## The workloads' transactions -/

/-- `TxExe` locks a row of `read_write_set` and copies it. If another transaction has the row, this
one waits and tries again (`wait`) or aborts. -/
def txExe (s : State) (t : Nat) (tx : DTX) (addr : UInt64) (slotNo : Nat) (releaseImme wait : Bool) :
    Outcome State := do
  await (tx.phase = .executing)
  let row := s.getDataItem slotNo addr
  let fetched := { slotNo := slotNo, value := row.value.take row.item.valueSize.toNat }
  let tx' := { tx with readWriteSet := tx.readWriteSet ++ [fetched] }
  if row.item.lock = UNLOCKED then do
    let item := { row.item with
      lock := if releaseImme then UNLOCKED else EXCLUSIVE_LOCKED
      timeStamp := t
      holderNode := UInt8.ofNat tx.node
      lockOwnerNode := UInt8.ofNat tx.node }
    let s ← (s.setRow slotNo { row with item := item }).addLockLog tab tx.node slotNo
      EXCLUSIVE_LOCKED t tx.node tx.node
    return s.setTx t tx'
  else if row.item.lock = EXCLUSIVE_LOCKED ∧ row.item.timeStamp = t then
    -- the transaction has the row already
    return (s.setRow slotNo row).setTx t tx'
  else if wait then
    return s.setRow slotNo row
  else
    return (s.setRow slotNo row).setTx t { tx with phase := .aborting }

/-- The workload changes the transaction's copies of a row. -/
def setValue (s : State) (t : Nat) (tx : DTX) (slotNo : Nat) (value : List UInt8) :
    Outcome State := do
  await (tx.phase = .executing)
  await (∀ e ∈ tx.readWriteSet, e.slotNo = slotNo → e.value.length = value.length)
  return s.setTx t { tx with
    readWriteSet := tx.readWriteSet.map fun e =>
      if e.slotNo = slotNo then { e with value := value } else e }

/-- `TxCommitSingle` for one row: of several items of a row the first is written. -/
def txCommitSingle (s : State) (t : Nat) (tx : DTX) (addr : UInt64) (slotNo : Nat)
    (handoff : Option Handoff) : Outcome State :=
  match tx.phase, tx.readWriteSet.find? (fun e => e.slotNo = slotNo) with
  | .committing commitTs, some dataItem => do
    let row := s.getDataItem slotNo addr
    let item := { row.item with version := commitTs, commitTimeStamp := commitTs }
    let item ← unlockTupleWithHandoff item t handoff
    let s := s.setRow slotNo
      { row with item := item, value := copyInto row.value 0 dataItem.value }
    let s ← s.addUpdateLog tab tx.node item (some row.key) slotNo dataItem.value commitTs
    return s.setTx t { tx with
      readWriteSet := tx.readWriteSet.filter fun e => e.slotNo ≠ slotNo }
  | _, _ => .blocked

/-- `TxAbortWorkLoad` for one row. -/
def txAbortWorkLoad (s : State) (t : Nat) (tx : DTX) (addr : UInt64) (slotNo : Nat)
    (handoff : Option Handoff) : Outcome State := do
  await (tx.phase = .aborting ∧ slotNo ∈ tx.readWriteSet.map (·.slotNo))
  let row := s.getDataItem slotNo addr
  let item ← unlockTupleWithHandoff row.item t handoff
  let s := s.setRow slotNo { row with item := item }
  let s ← s.addUpdateLog tab tx.node item (some row.key) slotNo row.value 0
  return s.setTx t { tx with
    readWriteSet := tx.readWriteSet.filter fun e => e.slotNo ≠ slotNo }

/-! ## SQL statements -/

/-- What a statement that wants to write a row finds out about the row's lock. -/
inductive WriteLock where
  /-- The row is left out. -/
  | skip
  /-- The transaction has to be rolled back. -/
  | conflict
  /-- The row may be written; the transaction has it in `write_keys` now. -/
  | locked (tx : DTX)

/-- The check of a row's lock in `UpdateExecutor` and `DeleteExecutor`. -/
def writeLock (tx : DTX) (item : DataItem) (slotNo : Nat) (conds : Bool) : WriteLock :=
  if item.lock ≠ 0 then
    if item.lock = 1 ∧ slotNo ∈ tx.readKeys then
      if conds = false then .skip
      else .locked { tx with
        readKeys := tx.readKeys.filter (· ≠ slotNo)
        writeKeys := tx.writeKeys.insert slotNo }
    else if item.lock ≠ EXCLUSIVE_LOCKED then .conflict
    else if slotNo ∉ tx.writeKeys then .conflict
    else if item.userInsert = 1 then .skip
    else .locked tx
  else if conds = false then .skip
  else .locked { tx with writeKeys := tx.writeKeys.insert slotNo }

/-- `UpdateExecutor::Next` and `DeleteExecutor::Next` for one row: they differ in the mark
`user_insert`, in the new value and in the write record. -/
def writeRow (s : State) (t : Nat) (tx : DTX) (addr : UInt64) (slotNo : Nat) (conds : Bool)
    (wtype : WType) (userInsert : UInt8) (change : List UInt8 → List UInt8) : Outcome State := do
  await (tx.phase = .executing)
  let row := s.getDataItem slotNo addr
  if row.item.valid = 0 then
    return s.setRow slotNo row
  else match writeLock tx row.item slotNo conds with
  | .skip => return s.setRow slotNo row
  | .conflict => return (s.setRow slotNo row).setTx t { tx with phase := .aborting }
  | .locked tx => do
    let item := { row.item with
      lock := EXCLUSIVE_LOCKED
      timeStamp := t
      holderNode := UInt8.ofNat tx.node
      userInsert := userInsert }
    let value := change row.value
    let s ← (s.setRow slotNo { row with item := item, value := value }).addUpdateLog tab tx.node item
      (tab.pkPtr row.key) slotNo value 0
    let write :=
      { wtype, slotNo, value := row.value.take row.item.valueSize.toNat, key := row.key }
    return s.setTx t { tx with writeSet := write :: tx.writeSet }

/-- `UpdateExecutor::Next` for one row; `setClauses` has the offset and the bytes of each column. -/
def update (s : State) (t : Nat) (tx : DTX) (addr : UInt64) (slotNo : Nat) (conds : Bool)
    (setClauses : List (Nat × List UInt8)) : Outcome State :=
  s.writeRow tab t tx addr slotNo conds .updateTuple 0 fun value =>
    setClauses.foldl (fun value c => copyInto value c.1 c.2) value

/-- `DeleteExecutor::Next` for one row: the row is only marked. -/
def delete (s : State) (t : Nat) (tx : DTX) (addr : UInt64) (slotNo : Nat) (conds : Bool) :
    Outcome State :=
  s.writeRow tab t tx addr slotNo conds .deleteTuple 1 id

/-- `QlManager::select_from` for one row. -/
def selectFrom (s : State) (t : Nat) (tx : DTX) (addr : UInt64) (slotNo : Nat) : Outcome State := do
  await (tx.phase = .executing)
  let row := s.getDataItem slotNo addr
  if 0 < row.item.lock ∧ ¬ (row.item.lock ≠ EXCLUSIVE_LOCKED ∧ slotNo ∉ tx.readKeys) then
    if row.item.lock = EXCLUSIVE_LOCKED ∧ slotNo ∉ tx.writeKeys then
      return (s.setRow slotNo row).setTx t { tx with phase := .aborting }
    else
      -- the transaction has a lock of the row already
      return s.setRow slotNo row
  else do
    let item := { row.item with lock := row.item.lock + 1 }
    let s ← (s.setRow slotNo { row with item := item }).addUpdateLog tab tx.node item
      (tab.pkPtr row.key) slotNo row.value 0
    return s.setTx t { tx with readKeys := tx.readKeys.insert slotNo }

/-- `Bitmap::first_bit(false, …)` -/
def firstFree (bitmap : Nat → Bool) (n : Nat) : Option Nat :=
  (List.range n).find? fun i => !bitmap i

/-- `int lock = data_item->lock`: the lower 32 bits. -/
def lockAsInt (lock : UInt64) : Int32 := lock.toUInt32.toInt32

/-- What `InsertExecutor::Next` does about the lock of the slot it has found; the lock has been cut
down to an `int`, which is compared with `EXCLUSIVE_LOCKED` after sign extension. -/
def insertLock (tx : DTX) (item : DataItem) (slotNo : Nat) : WriteLock :=
  let lock := lockAsInt item.lock
  if lock ≠ 0 then
    if lock = 1 ∧ slotNo ∈ tx.readKeys then
      .locked { tx with
        readKeys := tx.readKeys.filter (· ≠ slotNo)
        writeKeys := tx.writeKeys.insert slotNo }
    else if lock.toInt64.toUInt64 ≠ EXCLUSIVE_LOCKED then .conflict
    else if slotNo ∉ tx.writeKeys then .conflict
    else if item.userInsert ≠ 1 then .skip
    else .locked tx
  else .locked { tx with writeKeys := tx.writeKeys.insert slotNo }

/-- `InsertExecutor::Next` on the page that the free space map has proposed. `num_records_` goes up
before the slot's lock is looked at. -/
def insertNew (s : State) (t : Nat) (tx : DTX) (primaryKey : UInt64) (value : List UInt8) :
    Outcome State := do
  await (tx.phase = .executing)
  let key := if tab.primaryKey then primaryKey else 0
  match firstFree s.page.bitmap tab.fileHdr.numRecordsPerPage with
  | none =>
    -- the page is full; the executor goes on with another one
    return s
  | some slotNo =>
    let hdr := { s.page.hdr with numRecords := s.page.hdr.numRecords + 1 }
    let s := { s with page := { s.page with hdr := hdr } }
    let row := s.page.slots slotNo
    match insertLock tx row.item slotNo with
    | .skip => return s
    | .conflict => return s.setTx t { tx with phase := .aborting }
    | .locked tx => do
      let item := { row.item with
        lock := EXCLUSIVE_LOCKED
        timeStamp := t
        holderNode := UInt8.ofNat tx.node
        valid := 1
        tableId := tab.tableId
        valueSize := tab.valueSize
        userInsert := 0 }
      let row := { key := key, item := item, value := copyInto row.value 0 value }
      let s := s.setRow slotNo row
      let s := { s with page :=
        { s.page with bitmap := Function.update s.page.bitmap slotNo true } }
      let s ← s.addInsertLog tab tx.node item (tab.pkPtr key) row.value slotNo
      let write := { wtype := .insertTuple, slotNo, value := [], key }
      return s.setTx t { tx with writeSet := write :: tx.writeSet }

/-- `InsertExecutor::Next` when the index has found the key at a row of the page. -/
def insertExisting (s : State) (t : Nat) (tx : DTX) (addr : UInt64) (slotNo : Nat)
    (value : List UInt8) : Outcome State := do
  await (tx.phase = .executing ∧ tab.primaryKey = true)
  if slotNo ∉ tx.writeKeys then
    return s.setTx t { tx with phase := .aborting }
  else do
    let row := s.getDataItem slotNo addr
    cassert (row.item.lock = EXCLUSIVE_LOCKED)
    if row.item.valid = 0 then do
      let item := { row.item with userInsert := 0 }
      let row := { row with item := item, value := copyInto row.value 0 value }
      (s.setRow slotNo row).addInsertLog tab tx.node item (tab.pkPtr row.key) row.value slotNo
    else
      return (s.setRow slotNo row).setTx t { tx with phase := .aborting }

/-! ## SQL commit and rollback -/

/-- `TxCommitSingleSQL` on a row that was found: a row that the transaction has deleted leaves the
page. -/
def removeDeleted (s : State) (node slotNo : Nat) (row : Tuple) : Outcome State :=
  if row.item.userInsert = 1 then
    let s := s.setRow slotNo { row with item := { row.item with valid := 0 } }
    let page := { s.page with bitmap := Function.update s.page.bitmap slotNo false }
    { s with page := page }.addDeleteLog tab node slotNo
  else
    return s.setRow slotNo row

/-- The loop of `TxCommitSingleSQL` over `write_keys`. -/
def commitWriteKey (s : State) (t : Nat) (tx : DTX) (addr : UInt64) (slotNo : Nat)
    (handoff : Option Handoff) : Outcome State :=
  match tx.phase with
  | .committing commitTs => do
    await (slotNo ∈ tx.writeKeys)
    let row := s.getDataItem slotNo addr
    cassert (row.item.lock = EXCLUSIVE_LOCKED)
    let s ← s.removeDeleted tab tx.node slotNo row
    let row := s.page.slots slotNo
    let item := { row.item with userInsert := 0, version := commitTs, commitTimeStamp := commitTs }
    let item ← unlockTupleWithHandoff item t handoff
    let s := s.setRow slotNo { row with item := item }
    let s ← s.addUpdateLog tab tx.node item (some row.key) slotNo row.value commitTs
    return s.setTx t { tx with writeKeys := tx.writeKeys.filter (· ≠ slotNo) }
  | _ => .blocked

/-- A read lock is given back: the loops of `TxCommitSingleSQL` and `TxAbortSQL` over `read_keys`,
which differ in the new lock word and in the key that they log. -/
def unlockReadKey (s : State) (t : Nat) (tx : DTX) (addr : UInt64) (slotNo : Nat)
    (newLock : UInt64 → UInt64) (key : UInt64 → Option UInt64) : Outcome State := do
  await (slotNo ∈ tx.readKeys)
  let row := s.getDataItem slotNo addr
  cassert (row.item.lock ≠ EXCLUSIVE_LOCKED ∧ row.item.lock ≠ 0)
  let item := { row.item with lock := newLock row.item.lock }
  let s ← (s.setRow slotNo { row with item := item }).addUpdateLog tab tx.node item (key row.key)
    slotNo row.value 0
  return s.setTx t { tx with readKeys := tx.readKeys.filter (· ≠ slotNo) }

/-- The loop of `TxCommitSingleSQL` over `read_keys`. -/
def commitReadKey (s : State) (t : Nat) (tx : DTX) (addr : UInt64) (slotNo : Nat) :
    Outcome State :=
  match tx.phase with
  | .committing _ => do
    await (tx.writeKeys = [])
    s.unlockReadKey tab t tx addr slotNo (· - 1) some
  | _ => .blocked

/-- The loop of `TxAbortSQL` over `read_keys`. -/
def abortReadKey (s : State) (t : Nat) (tx : DTX) (addr : UInt64) (slotNo : Nat) :
    Outcome State := do
  await (tx.phase = .aborting)
  s.unlockReadKey tab t tx addr slotNo (fun _ => UNLOCKED) tab.pkPtr

/-- `TxAbortSQL` takes back one write, on a row that was found. -/
def undoWrite (s : State) (node : Nat) (row : Tuple) (write : WriteRecord) : Outcome State :=
  match write.wtype with
  | .deleteTuple =>
    (s.setRow write.slotNo row).addUpdateLog tab node row.item (tab.pkPtr row.key) write.slotNo
      row.value 0
  | .insertTuple => do
    cassert (s.page.bitmap write.slotNo = true)
    let s := s.setRow write.slotNo { row with item := { row.item with valid := 0 } }
    let page := { s.page with bitmap := Function.update s.page.bitmap write.slotNo false }
    { s with page := page }.addDeleteLog tab node write.slotNo
  | .updateTuple =>
    let old := write.value.take row.item.valueSize.toNat
    (s.setRow write.slotNo { row with value := copyInto row.value 0 old }).addUpdateLog tab node
      row.item (tab.pkPtr row.key) write.slotNo write.value 0

/-- The loop of `TxAbortSQL` over `write_set`, last record first. -/
def abortUndo (s : State) (t : Nat) (tx : DTX) (addr : UInt64) : Outcome State := do
  await (tx.phase = .aborting ∧ tx.readKeys = [])
  match tx.writeSet with
  | [] => .blocked
  | write :: writes => do
    cassert (write.slotNo ∈ tx.writeKeys)
    let row := s.getDataItem write.slotNo addr
    cassert (tab.primaryKey = true → row.key = write.key)
    let s ← s.undoWrite tab tx.node row write
    return s.setTx t { tx with writeSet := writes }

/-- The loop of `TxAbortSQL` over `write_keys`. -/
def abortWriteKey (s : State) (t : Nat) (tx : DTX) (addr : UInt64) (slotNo : Nat)
    (handoff : Option Handoff) : Outcome State := do
  await (tx.phase = .aborting ∧ tx.readKeys = [] ∧ tx.writeSet = [] ∧ slotNo ∈ tx.writeKeys)
  let row := s.getDataItem slotNo addr
  let item ← unlockTupleWithHandoff row.item t handoff
  let s ← (s.setRow slotNo { row with item := item }).addUpdateLog tab tx.node item
    (tab.pkPtr row.key) slotNo row.value 0
  return s.setTx t { tx with writeKeys := tx.writeKeys.filter (· ≠ slotNo) }

end State

/-- The critical sections of transactions on the page. -/
inductive Op where
  | txExe (slotNo : Nat) (releaseImme wait : Bool)
  | setValue (slotNo : Nat) (value : List UInt8)
  | startCommit (commitTs : Nat)
  | startAbort
  | txCommitSingle (slotNo : Nat) (handoff : Option Handoff)
  | txAbortWorkLoad (slotNo : Nat) (handoff : Option Handoff)
  | update (slotNo : Nat) (conds : Bool) (setClauses : List (Nat × List UInt8))
  | delete (slotNo : Nat) (conds : Bool)
  | selectFrom (slotNo : Nat)
  | insertNew (primaryKey : UInt64) (value : List UInt8)
  | insertExisting (slotNo : Nat) (value : List UInt8)
  | commitWriteKey (slotNo : Nat) (handoff : Option Handoff)
  | commitReadKey (slotNo : Nat)
  | abortReadKey (slotNo : Nat)
  | abortUndo
  | abortWriteKey (slotNo : Nat) (handoff : Option Handoff)

/-- What happens next: a transaction begins on a node, or it goes on, with the page in the frame at
`addr`. -/
inductive Action where
  | txBegin (t node : Nat)
  | run (t : Nat) (addr : UInt64) (op : Op)

namespace State

variable (tab : Table)

/-- One critical section. -/
def runOp (s : State) (t : Nat) (tx : DTX) (addr : UInt64) : Op → Outcome State
  | .txExe slotNo releaseImme wait => s.txExe tab t tx addr slotNo releaseImme wait
  | .setValue slotNo value => s.setValue t tx slotNo value
  | .startCommit commitTs => do
    await (tx.phase = .executing)
    return s.setTx t { tx with phase := .committing commitTs }
  | .startAbort => do
    await (tx.phase = .executing)
    return s.setTx t { tx with phase := .aborting }
  | .txCommitSingle slotNo handoff => s.txCommitSingle tab t tx addr slotNo handoff
  | .txAbortWorkLoad slotNo handoff => s.txAbortWorkLoad tab t tx addr slotNo handoff
  | .update slotNo conds setClauses => s.update tab t tx addr slotNo conds setClauses
  | .delete slotNo conds => s.delete tab t tx addr slotNo conds
  | .selectFrom slotNo => s.selectFrom tab t tx addr slotNo
  | .insertNew primaryKey value => s.insertNew tab t tx primaryKey value
  | .insertExisting slotNo value => s.insertExisting tab t tx addr slotNo value
  | .commitWriteKey slotNo handoff => s.commitWriteKey tab t tx addr slotNo handoff
  | .commitReadKey slotNo => s.commitReadKey tab t tx addr slotNo
  | .abortReadKey slotNo => s.abortReadKey tab t tx addr slotNo
  | .abortUndo => s.abortUndo tab t tx addr
  | .abortWriteKey slotNo handoff => s.abortWriteKey tab t tx addr slotNo handoff

/-- A transaction begins, or runs a critical section. -/
def step (s : State) : Action → Outcome State
  | .txBegin t node => do
    await (s.txs t = none)
    return s.setTx t
      { node, readWriteSet := [], readKeys := [], writeKeys := [], writeSet := [],
        phase := .executing }
  | .run t addr op =>
    match s.txs t with
    | none => .blocked
    | some tx => s.runOp tab t tx addr op

/-- No transaction has begun. -/
def init (page : Page) (currentLLSN : Nat → Nat) : State where
  page := page
  currentLLSN := currentLLSN
  records := []
  txs := fun _ => none

end State

/-- A slot of the page that holds, or has held, a row of the table. -/
def Table.IsRow (tab : Table) (page : Page) (slotNo : Nat) : Prop :=
  slotNo < tab.fileHdr.numRecordsPerPage ∧ (page.slots slotNo).item.valueSize = tab.valueSize

instance (tab : Table) (page : Page) (slotNo : Nat) : Decidable (tab.IsRow page slotNo) :=
  inferInstanceAs (Decidable (_ ∧ _))

/-- Index lookups and scans find rows of the table, and the columns of a row lie within its value. -/
def Allowed (tab : Table) (s : State) : Action → Prop
  | .txBegin _ _ => True
  | .run _ _ op =>
    match op with
    | .txExe slotNo _ _ | .delete slotNo _ | .selectFrom slotNo => tab.IsRow s.page slotNo
    | .update slotNo _ setClauses =>
      tab.IsRow s.page slotNo ∧ ∀ c ∈ setClauses, c.1 + c.2.length ≤ tab.valueSize
    | .insertNew _ value => value.length = tab.valueSize
    | .insertExisting slotNo value => tab.IsRow s.page slotNo ∧ value.length = tab.valueSize
    | _ => True

instance (tab : Table) (s : State) (a : Action) : Decidable (Allowed tab s a) :=
  match a with
  | .txBegin _ _ => .isTrue trivial
  | .run _ _ op =>
    match op with
    | .txExe _ _ _ | .delete _ _ | .selectFrom _ => inferInstanceAs (Decidable (Table.IsRow _ _ _))
    | .update _ _ _ | .insertExisting _ _ => inferInstanceAs (Decidable (_ ∧ _))
    | .insertNew _ _ => inferInstanceAs (Decidable (_ = _))
    | .setValue _ _ | .startCommit _ | .startAbort | .txCommitSingle _ _ | .txAbortWorkLoad _ _
    | .commitWriteKey _ _ | .commitReadKey _ | .abortReadKey _ | .abortUndo | .abortWriteKey _ _ =>
      .isTrue trivial

end Dtx
