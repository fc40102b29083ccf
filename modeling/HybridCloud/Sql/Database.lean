import HybridCloud.Dtx.HeapPage

/-!
# A SQL transaction on the database

The tables of the database are heap pages and a B-link tree that finds a row by its primary key. A SQL
transaction works on the rows one at a time, each time with the X lock of the row's page; what it does
to the page is a step of `Dtx.HeapPage`. This module adds what goes beyond one page: the B-link tree,
the choice of a page for a new row (`InsertExecutor::Next`), and the loops of `TxCommitSingleSQL` and
`TxAbortSQL` over the rows of the transaction.

The B-link tree is taken as the map that it implements. The free space map may propose any page of the
table.
-/

namespace Sql

open Outcome Storage Dtx

/-- What `read_keys` and `write_keys` hold: `std::pair<Rid, table_id_t>`. -/
structure RowId where
  table : Nat
  rid : Rid
  deriving DecidableEq

/-- The compute node that runs the transactions, and the tables. -/
structure Site where
  node : Nat
  /-- The tables; `pageNo` is filled in for each page. -/
  tabs : Nat → Table
  /-- The address of a page in the buffer. -/
  addr : Nat → Nat → UInt64
  /-- The order in which an `unordered_set` is gone through. -/
  order : List RowId → List RowId
  order_nodup : ∀ keys, (order keys).Nodup
  mem_order : ∀ keys r, r ∈ order keys ↔ r ∈ keys
  primaryKey : ∀ t, (tabs t).primaryKey = true
  records_pos : ∀ t, 0 < (tabs t).fileHdr.numRecordsPerPage
  /-- The longest record of a row fits the replay buffer. Rows are taken to lie inside their pages,
  which `HeapLayout.slotsInside_iff` shows to fail for the record sizes `HeapLayout.overfull`. -/
  fits : ∀ t, LOG_HEADER_SIZE + (33 + (HeapLayout.sizeofDataItem + (tabs t).valueSize) +
    (tabs t).name.utf8ByteSize) ≤ LOG_REPLAY_BUFFER_SIZE

/-- A page of a table. -/
def Site.tab (site : Site) (t pageNo : Nat) : Table := { site.tabs t with pageNo := pageNo }

/-- All tables. -/
structure Database where
  pages : Nat → Nat → Page
  /-- `num_pages_` of each table. -/
  numPages : Nat → Nat
  /-- The B-link tree of each table. -/
  index : Nat → UInt64 → Option Rid
  /-- `current_llsn_` of each node. -/
  currentLLSN : Nat → Nat

/-- The part of `DTX` that SQL uses. -/
structure Transaction where
  startTs : Nat
  readKeys : List RowId
  writeKeys : List RowId
  /-- `write_set`, last record first, each with its table and page. -/
  writeSet : List (Nat × Nat × WriteRecord)
  /-- `tx_status == TX_ABORTING` -/
  aborting : Bool

/-- `TxBegin` -/
def Transaction.begin (startTs : Nat) : Transaction where
  startTs := startTs
  readKeys := []
  writeKeys := []
  writeSet := []
  aborting := false

/-! ## One page -/

/-- The slots of a page among the keys. -/
def slotsOn (keys : List RowId) (t pageNo : Nat) : List Nat :=
  keys.filterMap fun r => if r.table = t ∧ r.rid.pageNo = pageNo then some r.rid.slotNo else none

/-- The keys, with other slots of a page. -/
def replaceOn (keys : List RowId) (t pageNo : Nat) (slots : List Nat) : List RowId :=
  keys.filter (fun r => ¬ (r.table = t ∧ r.rid.pageNo = pageNo)) ++
    slots.map fun i => ⟨t, ⟨pageNo, i⟩⟩

/-- The transaction, as a step on one page sees it. -/
def Transaction.onPage (tx : Transaction) (site : Site) (t pageNo : Nat) (phase : Phase)
    (writes : List WriteRecord) : DTX where
  node := site.node
  readWriteSet := []
  readKeys := slotsOn tx.readKeys t pageNo
  writeKeys := slotsOn tx.writeKeys t pageNo
  writeSet := writes
  phase := phase

namespace Database

/-- The page, as a step on it sees it. -/
def onPage (db : Database) (t pageNo startTs : Nat) (part : DTX) : State where
  page := db.pages t pageNo
  currentLLSN := db.currentLLSN
  records := []
  txs := Function.update (fun _ => none) startTs (some part)

/-- One page is written. -/
def setPage (db : Database) (t pageNo : Nat) (page : Page) : Database :=
  { db with pages := Function.update db.pages t (Function.update (db.pages t) pageNo page) }

/-- The transaction makes a step on a page, with the X lock of the page. `writes` are the write records
that the step may use up. -/
def stepOn (site : Site) (db : Database) (tx : Transaction) (t pageNo : Nat) (phase : Phase)
    (writes : List WriteRecord) (op : Op) : Outcome (Database × Transaction) := do
  let part := tx.onPage site t pageNo phase writes
  let s ← (db.onPage t pageNo tx.startTs part).runOp (site.tab t pageNo) tx.startTs part
    (site.addr t pageNo) op
  match s.txs tx.startTs with
  | none => .blocked
  | some part =>
    let db := { db.setPage t pageNo s.page with currentLLSN := s.currentLLSN }
    return (db, { tx with
      readKeys := replaceOn tx.readKeys t pageNo part.readKeys
      writeKeys := replaceOn tx.writeKeys t pageNo part.writeKeys
      writeSet := part.writeSet.map (fun w => (t, pageNo, w)) ++ tx.writeSet
      aborting := tx.aborting || part.phase == .aborting })

/-! ## The B-link tree -/

/-- `insert_into_blink`: a key that is there stays as it is. -/
def insertIntoBlink (db : Database) (t : Nat) (key : UInt64) (rid : Rid) : Database :=
  match db.index t key with
  | some _ => db
  | none => { db with
      index := Function.update db.index t (Function.update (db.index t) key (some rid)) }

/-- The key leaves the index. -/
def deleteFromBlink (db : Database) (t : Nat) (key : UInt64) : Database :=
  { db with index := Function.update db.index t (Function.update (db.index t) key none) }

/-! ## Statements -/

/-- A row of the database, whether it is in use or not. -/
def row (db : Database) (r : RowId) : Tuple := (db.pages r.table r.rid.pageNo).slots r.rid.slotNo

/-- The bit of the row's slot. -/
def used (db : Database) (r : RowId) : Bool := (db.pages r.table r.rid.pageNo).bitmap r.rid.slotNo

/-- `UpdateExecutor::Next` for one row. -/
def update (site : Site) (db : Database) (tx : Transaction) (r : RowId) (conds : Bool)
    (setClauses : List (Nat × List UInt8)) : Outcome (Database × Transaction) :=
  db.stepOn site tx r.table r.rid.pageNo .executing [] (.update r.rid.slotNo conds setClauses)

/-- `DeleteExecutor::Next` for one row. -/
def delete (site : Site) (db : Database) (tx : Transaction) (r : RowId) (conds : Bool) :
    Outcome (Database × Transaction) :=
  db.stepOn site tx r.table r.rid.pageNo .executing [] (.delete r.rid.slotNo conds)

/-- `search_free_page`: the free space map proposes a page, or `INVALID_PAGE_ID`. -/
def searchFreePage (db : Database) (t hint : Nat) : Option Nat :=
  if 1 ≤ hint ∧ hint < db.numPages t then some hint else none

/-- What `CreatePage` writes. -/
def zeroPage (tab : Table) : Page where
  hdr := { nextFreePageNo := 0, numRecords := 0, llsn := 0, preLLSN := 0 }
  bitmap _ := false
  slots _ :=
    { key := 0
      item := { DataItem.init with valid := 0 }
      value := List.replicate tab.valueSize 0 }

/-- `rpc_create_page` -/
def createPage (site : Site) (db : Database) (t : Nat) : Database :=
  { db.setPage t (db.numPages t) (zeroPage (site.tabs t)) with
    numPages := Function.update db.numPages t (db.numPages t + 1) }

/-- A new row has been written to a page: `insert_entry`, whose answer is checked. -/
def enterRow (db : Database) (t pageNo : Nat) (write : WriteRecord) : Outcome Database := do
  cassert (db.index t write.key = none)
  return db.insertIntoBlink t write.key ⟨pageNo, write.slotNo⟩

/-- The loop of `InsertExecutor::Next`: after two proposals of the free space map that did not help, a
page is created. -/
def insertLoop (site : Site) (db : Database) (tx : Transaction) (t : Nat) (key : UInt64)
    (value : List UInt8) : List Nat → Outcome (Database × Transaction)
  | [] => do
    let pageNo := db.numPages t
    let (db, tx) ← (db.createPage site t).stepOn site tx t pageNo .executing [] (.insertNew key value)
    match tx.writeSet with
    | (_, _, write) :: _ => do
      let db ← db.enterRow t pageNo write
      return (db, tx)
    | [] => .blocked
  | hint :: hints =>
    match db.searchFreePage t hint with
    | none => insertLoop site db tx t key value hints
    | some pageNo => do
      let (db', tx') ← db.stepOn site tx t pageNo .executing [] (.insertNew key value)
      if tx'.writeSet.length = tx.writeSet.length then
        if tx'.aborting then
          return (db', tx')
        else
          -- the page is full
          insertLoop site db' tx' t key value hints
      else match tx'.writeSet with
        | (_, _, write) :: _ => do
          let db ← db'.enterRow t pageNo write
          return (db, tx')
        | [] => .blocked

/-- `InsertExecutor::Next` -/
def insert (site : Site) (db : Database) (tx : Transaction) (t : Nat) (key : UInt64)
    (value : List UInt8) (hints : List Nat) : Outcome (Database × Transaction) :=
  match db.index t key with
  | some rid => db.stepOn site tx t rid.pageNo .executing [] (.insertExisting rid.slotNo value)
  | none => db.insertLoop site tx t key value (hints.take 2)

/-! ## Commit and rollback -/

/-- The loop of `TxCommitSingleSQL` over `write_keys`. -/
def commitWrites (site : Site) (commitTs : Nat) :
    List RowId → Database → Transaction → Outcome (Database × Transaction)
  | [], db, tx => return (db, tx)
  | r :: rs, db, tx => do
    let deleted := (db.row r).item.userInsert == 1
    let key := (db.row r).key
    let (db, tx) ← db.stepOn site tx r.table r.rid.pageNo (.committing commitTs) []
      (.commitWriteKey r.rid.slotNo none)
    let db := if deleted then db.deleteFromBlink r.table key else db
    commitWrites site commitTs rs db tx

/-- The loop of `TxCommitSingleSQL` over `read_keys`. -/
def commitReads (site : Site) (commitTs : Nat) :
    List RowId → Database → Transaction → Outcome (Database × Transaction)
  | [], db, tx => return (db, tx)
  | r :: rs, db, tx => do
    let (db, tx) ← db.stepOn site tx r.table r.rid.pageNo (.committing commitTs) []
      (.commitReadKey r.rid.slotNo)
    commitReads site commitTs rs db tx

/-- `TxCommitSingleSQL`. -/
def txCommitSingleSQL (site : Site) (commitTs : Nat) (db : Database) (tx : Transaction) :
    Outcome Database := do
  let (db, tx) ← commitWrites site commitTs (site.order tx.writeKeys) db tx
  let (db, _) ← commitReads site commitTs (site.order tx.readKeys) db tx
  return db

/-- The loop of `TxAbortSQL` over `read_keys`. -/
def abortReads (site : Site) : List RowId → Database → Transaction → Outcome (Database × Transaction)
  | [], db, tx => return (db, tx)
  | r :: rs, db, tx => do
    let (db, tx) ← db.stepOn site tx r.table r.rid.pageNo .aborting [] (.abortReadKey r.rid.slotNo)
    abortReads site rs db tx

/-- What `TxAbortSQL` does to the B-link tree when it takes back a write. -/
def undoIndex (db : Database) (t pageNo : Nat) (write : WriteRecord) : Database :=
  match write.wtype with
  | .deleteTuple => db.insertIntoBlink t write.key ⟨pageNo, write.slotNo⟩
  | .insertTuple => db.deleteFromBlink t write.key
  | .updateTuple => db

/-- The loop of `TxAbortSQL` over `write_set`. -/
def abortUndo (site : Site) : List (Nat × Nat × WriteRecord) → Database → Transaction →
    Outcome (Database × Transaction)
  | [], db, tx => return (db, tx)
  | (t, pageNo, write) :: writes, db, tx => do
    let (db, tx) ← db.stepOn site { tx with writeSet := writes } t pageNo .aborting [write] .abortUndo
    abortUndo site writes (db.undoIndex t pageNo write) tx

/-- The loop of `TxAbortSQL` over `write_keys`. -/
def abortWrites (site : Site) : List RowId → Database → Transaction → Outcome (Database × Transaction)
  | [], db, tx => return (db, tx)
  | r :: rs, db, tx => do
    let (db, tx) ← db.stepOn site tx r.table r.rid.pageNo .aborting []
      (.abortWriteKey r.rid.slotNo none)
    abortWrites site rs db tx

/-- `TxAbortSQL`. -/
def txAbortSQL (site : Site) (db : Database) (tx : Transaction) : Outcome Database := do
  let (db, tx) ← abortReads site (site.order tx.readKeys) db tx
  let (db, tx) ← abortUndo site tx.writeSet db tx
  let (db, _) ← abortWrites site (site.order tx.writeKeys) db tx
  return db

end Database

end Sql
