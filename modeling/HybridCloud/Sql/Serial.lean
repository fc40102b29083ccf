import HybridCloud.Sql.Database
import HybridCloud.Lib.KeyedHeap

/-!
# Transactions one after the other

A transaction is a list of row operations followed by `TxCommitSingleSQL` or `TxAbortSQL`. When an
operation sets `TX_ABORTING`, the worker rolls the transaction back at once. The run also says what each
operation means for the map from keys to rows: `Database.meaning`.
-/

namespace Sql

open Outcome Storage Dtx KeyedHeap

/-- A row operation. -/
inductive RowOp where
  | insert (t : Nat) (key : UInt64) (value : List UInt8) (hints : List Nat)
  | update (r : RowId) (setClauses : List (Nat × List UInt8))
  | delete (r : RowId)

/-- The values of the operation have the sizes of the columns. -/
def RowOp.Fits (site : Site) : RowOp → Prop
  | .insert t _ value _ => value.length = (site.tabs t).valueSize
  | .update r setClauses => ∀ c ∈ setClauses, c.1 + c.2.length ≤ (site.tabs r.table).valueSize
  | .delete _ => True

/-- A row in the eyes of SQL: its table and its key. -/
abbrev Key := Nat × UInt64

/-- `UPDATE` on the bytes of a row. -/
def setColumns (setClauses : List (Nat × List UInt8)) (value : List UInt8) : List UInt8 :=
  setClauses.foldl (fun value c => copyInto value c.1 c.2) value

namespace Database

/-- The visible rows: the bit of the slot is set and the row is valid. -/
def heap (db : Database) (r : RowId) : Option (Key × List UInt8) :=
  if db.used r = true ∧ (db.row r).item.valid = 1 then
    some ((r.table, (db.row r).key), (db.row r).value)
  else none

/-- The B-link trees of all tables. -/
def find (db : Database) (k : Key) : Option RowId :=
  (db.index k.1 k.2).map fun rid => ⟨k.1, rid⟩

/-- The visible map from keys to rows. -/
def rows (db : Database) : Key → Option (List UInt8) := KeyedHeap.rows db.find db.heap

/-- The rows that the transaction sees: not those that it has deleted. -/
def view (db : Database) (tx : Transaction) (r : RowId) : Option (Key × List UInt8) :=
  if r ∈ tx.writeKeys ∧ (db.row r).item.userInsert = 1 then none else db.heap r

/-- What an operation means for the rows that the transaction sees. -/
def meaning (db : Database) (tx : Transaction) : RowOp → Change Key (List UInt8)
  | .insert t key value _ => .insert (t, key) value
  | .update r setClauses =>
    match db.view tx r with
    | some (key, _) => .update key (setColumns setClauses)
    | none => .nothing
  | .delete r =>
    match db.view tx r with
    | some (key, _) => .delete key
    | none => .nothing

/-- One operation of a script. -/
def exec (site : Site) (db : Database) (tx : Transaction) : RowOp →
    Outcome (Database × Transaction)
  | .insert t key value hints => db.insert site tx t key value hints
  | .update r setClauses => db.update site tx r true setClauses
  | .delete r => db.delete site tx r true

/-- The operations up to one that sets `TX_ABORTING`, and what they mean. -/
def execAll (site : Site) : List RowOp → Database → Transaction →
    Outcome (Database × Transaction × List (Change Key (List UInt8)))
  | [], db, tx => return (db, tx, [])
  | op :: ops, db, tx => do
    let change := db.meaning tx op
    let (db, tx) ← db.exec site tx op
    if tx.aborting then
      return (db, tx, [change])
    else do
      let (db, tx, changes) ← execAll site ops db tx
      return (db, tx, change :: changes)

/-- What is true of a database between transactions: the B-link trees find the visible rows, no row is
locked, and an unused slot has no row. -/
structure Consistent (site : Site) (db : Database) : Prop where
  indexed : Indexed db.find db.heap
  unlocked : ∀ r, (db.row r).item.lock = UNLOCKED
  free : ∀ r, db.used r = false → (db.row r).item.valid = 0
  valid : ∀ r, (db.row r).item.valid = 0 ∨ (db.row r).item.valid = 1
  valueSize : ∀ r, (db.row r).item.valid = 1 →
    (db.row r).item.valueSize = (site.tabs r.table).valueSize
  length : ∀ r, (db.row r).value.length = (site.tabs r.table).valueSize
  bounds : ∀ r, db.used r = true → r.rid.pageNo < db.numPages r.table ∧
    r.rid.slotNo < (site.tabs r.table).fileHdr.numRecordsPerPage

end Database

end Sql
