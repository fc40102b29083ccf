import HybridCloud.Storage.Page

/-!
# Log records

The records of a node's WAL (src/core/storage/log_record.h). A record's length is computed from its
contents the way the constructors add it up. A record that could not be read back through the
replay buffer cannot be built: a tuple is smaller than a page and a table's name is a file name, so
every record the constructors make fits, and `PreparedLogRecord::Fits` refuses a vote that does not.
-/

namespace Storage

open HeapLayout (sizeofDataItem)

/-- The bytes of a record before its body. -/
def LOG_HEADER_SIZE : Nat := 44

/-- The bytes that replay reads of a WAL file at once. -/
def LOG_REPLAY_BUFFER_SIZE : Nat := 10 * 4096

/-- The row a record is about. -/
structure Rid where
  pageNo : Nat
  slotNo : Nat
  deriving DecidableEq, Repr

/-- The part of a record that depends on its `LogType`. -/
inductive LogBody where
  | update (tableName : String) (rid : Rid) (newValue : RmRecord)
  | insert (tableName : String) (rid : Rid) (insertValue : RmRecord)
  | delete (tableName : String) (rid : Rid)
  | begin
  | commit
  | abort
  | newPage (tableName : String)
  | fsmUpdate (tableName : String)
  | batchEnd
  | lock (tableName : String) (rid : Rid) (lockType : UInt64) (timeStamp : Nat)
      (holderNode lockOwnerNode : UInt8)
  | prepared (payloadSize : Nat)
  deriving DecidableEq, Repr

/-- The bytes a record takes after its header. -/
def LogBody.size : LogBody → Nat
  | .update table _ v => 1 + 8 + 8 + (sizeofDataItem + v.value.length) + 8 + 8 + table.utf8ByteSize
  | .insert table _ v => 8 + 8 + (sizeofDataItem + v.value.length) + 4 + 4 + 8 + table.utf8ByteSize
  | .delete table _ => 4 + 8 + table.utf8ByteSize + 4 + 4 + 1 + 1
  | .newPage table => 4 + 4 + 8 + table.utf8ByteSize
  | .fsmUpdate table => 4 + 4 + 4 + 8 + table.utf8ByteSize
  | .lock table _ _ _ _ _ => 4 + 8 + 8 + 8 + 1 + 1 + 8 + table.utf8ByteSize
  | .prepared payloadSize => 4 + payloadSize + 8
  | .begin | .commit | .abort | .batchEnd => 0

/-- A record that fits into the replay buffer. -/
structure LogRecord where
  lsn : Nat
  /-- The version of the page that the record was made on. -/
  prevLsn : Nat
  logNodeId : Nat
  body : LogBody
  fits : LOG_HEADER_SIZE + body.size ≤ LOG_REPLAY_BUFFER_SIZE
  deriving DecidableEq

namespace LogRecord

/-- `log_tot_len_`. -/
def logTotLen (r : LogRecord) : Nat := LOG_HEADER_SIZE + r.body.size

theorem header_le_logTotLen (r : LogRecord) : LOG_HEADER_SIZE ≤ r.logTotLen :=
  Nat.le_add_right _ _

theorem logTotLen_pos (r : LogRecord) : 0 < r.logTotLen :=
  Nat.lt_of_lt_of_le (by decide) r.header_le_logTotLen

/-- The heap page that a record changes (`LogReplay::PageForLog`). -/
def pageForLog (r : LogRecord) : Option PageKey :=
  match r.body with
  | .update table rid _ | .insert table rid _ | .delete table rid | .lock table rid _ _ _ _ =>
    some (table, rid.pageNo)
  | _ => none

end LogRecord

/-- The length of a piece of a WAL. -/
def walBytes (rs : List LogRecord) : Nat := (rs.map LogRecord.logTotLen).sum

@[simp] theorem walBytes_nil : walBytes [] = 0 := rfl

@[simp] theorem walBytes_cons (r : LogRecord) (rs : List LogRecord) :
    walBytes (r :: rs) = r.logTotLen + walBytes rs := by
  simp [walBytes]

@[simp] theorem walBytes_append (xs ys : List LogRecord) :
    walBytes (xs ++ ys) = walBytes xs + walBytes ys := by
  simp [walBytes]

theorem walBytes_eq_zero {rs : List LogRecord} : walBytes rs = 0 ↔ rs = [] := by
  cases rs with
  | nil => simp
  | cons r rs =>
    have := r.logTotLen_pos
    simp only [walBytes_cons, reduceCtorEq, iff_false]
    omega

end Storage
