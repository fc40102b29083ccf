import HybridCloud.Storage.LogRecord
import HybridCloud.Lib.Transition

/-!
# The bytes of a node's WAL

`LogManager::AppendAndSync` (src/core/storage/log_manager.cc) cuts a batch into records when it admits
it, and the constructor of `LogReplay` (src/core/storage/logreplay.cc) cuts the file into records when
it looks for an incomplete one at its end after a restart. What is in a record behind its header does
not matter to either of them.
-/

namespace Storage.Wal

open Outcome

/-- What is in a WAL file. -/
abbrev Bytes := List UInt8

/-- Where `log_tot_len_` is in a record. -/
def OFFSET_LOG_TOT_LEN : Nat := 20

/-- Where `log_node_id_` is. -/
def OFFSET_LOG_NODE_ID : Nat := 32

/-- The number that the `n` bytes at `offset` stand for, least significant byte first. -/
def getLE (src : Bytes) (offset n : Nat) : Nat :=
  ((src.drop offset).take n).foldr (fun b acc => b.toNat + 256 * acc) 0

/-- `log_tot_len_` of the record at the start of `src`. -/
def logTotLen (src : Bytes) : Nat := getLE src OFFSET_LOG_TOT_LEN 4

/-- `log_node_id_`; the negative numbers are those from `2 ^ 31` on. -/
def logNodeId (src : Bytes) : Nat := getLE src OFFSET_LOG_NODE_ID 4

/-- `Checksum` of a PREPARED record (FNV-1a). -/
def checksum (src : Bytes) : Nat :=
  src.foldl (fun hash b => (hash ^^^ b.toNat) * 1099511628211 % 2 ^ 64) 14695981039346656037

/-- The loop of `AppendAndSync` over the rest of the batch. Every round takes a byte or more, so the
length of the batch is enough fuel. -/
def checkBatch (node : Nat) : Nat → Bytes → Outcome Unit
  | _, [] => return ()
  | 0, _ :: _ => blocked
  | fuel + 1, data@(_ :: _) => do
    cassert (LOG_HEADER_SIZE ≤ data.length)
    let length := logTotLen data
    cassert (¬ (logNodeId data ≠ node ∨ length < LOG_HEADER_SIZE ∨ data.length < length))
    checkBatch node fuel (data.drop length)

/-- The checks of `AppendAndSync` on a batch that is not empty. Returns the producer. -/
def checkProducer (data : Bytes) : Outcome Nat := do
  cassert (LOG_HEADER_SIZE ≤ data.length)
  let node := logNodeId data
  cassert (node < 2 ^ 31)
  checkBatch node data.length data
  return node

/-- The loop of the constructor of `LogReplay` over the rest of a file: how many of its bytes are
complete records. -/
def scan (node : Nat) : Nat → Bytes → Outcome Nat
  | 0, _ => return 0
  | fuel + 1, rest =>
    if rest.length < LOG_HEADER_SIZE then return 0
    else do
      let size := logTotLen rest
      cassert (¬ (size < LOG_HEADER_SIZE ∨ LOG_REPLAY_BUFFER_SIZE < size ∨ logNodeId rest ≠ node))
      if rest.length < size then return 0
      else
        let more ← scan node fuel (rest.drop size)
        return size + more

/-- The records of a batch, as `AppendAndSync` steps over them. -/
def splitRecords : Nat → Bytes → List Bytes
  | _, [] => []
  | 0, _ :: _ => []
  | fuel + 1, data@(_ :: _) =>
    data.take (logTotLen data) :: splitRecords fuel (data.drop (logTotLen data))

/-- All records of a batch. -/
def records (data : Bytes) : List Bytes := splitRecords data.length data

end Storage.Wal
