import HybridCloud.Lib.Outcome

/-!
# The buffer pool of a table

`BufferPool` (src/core/bufferpool.h) keeps the pages that a compute node has cached for one table.
Page table, free lists and LRU lists are split into partitions with a mutex each; a page belongs to
the partition of its number, a frame in the `LRU_Replacer` (src/core/bufferpool_replacer.h) to that
of its own. Every member function holds the mutex of its page's partition from beginning to end, so
it is one definition here. `replace_page` is the exception: its steps are left to the caller, and
`probe` is the look of `tryVictim` into one LRU partition.

The page tables of all partitions are one function. The contents of a page play no part.
-/

namespace BufferPool

open Outcome Function

/-- The number of partitions of the replacer. -/
def NUM_BUFFER_PARTITION : Nat := 16

/-- How many frames of a partition `tryVictim` looks at. -/
def maxProbePerPartition : Nat := 5

/-- `page_id_t`; `none` stands for `INVALID_PAGE_ID` where a page may be missing. -/
abbrev PageId := Nat

/-- `frame_id_t` -/
abbrev FrameId := Nat

/-- What the pool reads and writes of a `Page`. -/
structure Frame where
  pageId : Option PageId
  pinCount : Nat
  deriving DecidableEq, Repr

/-- The replacer: which frames may be evicted. -/
structure LRUReplacer where
  maxSize : Nat
  /-- The frames that a `tryVictim` has chosen and no `endVictim` has let go. -/
  isEvicting : FrameId → Bool
  /-- The frames that may be chosen, by partition, the one used last in front. -/
  lruLists : Nat → List FrameId

namespace LRUReplacer

/-- No frame may be evicted. -/
def init (numPages : Nat) : LRUReplacer where
  maxSize := numPages
  isEvicting _ := false
  lruLists _ := []

/-- `get_partition_idx` -/
def partitionIdx (f : FrameId) : Nat := f % NUM_BUFFER_PARTITION

/-- The body of `tryVictim`'s loop: the first of the last few frames of partition `i` that nobody
has chosen. -/
def probe (r : LRUReplacer) (i : Nat) : Option FrameId :=
  ((r.lruLists i).reverse.take maxProbePerPartition).find? fun f => !r.isEvicting f

/-- `tryVictim` has chosen the frame. -/
def choose (r : LRUReplacer) (f : FrameId) : LRUReplacer :=
  { r with isEvicting := update r.isEvicting f true }

/-- The frame is taken out of the list of its partition. -/
def remove (r : LRUReplacer) (f : FrameId) : LRUReplacer :=
  { r with
    lruLists := update r.lruLists (partitionIdx f) ((r.lruLists (partitionIdx f)).erase f) }

/-- `endVictim` of the frame that was chosen. -/
def endVictim (r : LRUReplacer) (success : Bool) (f : FrameId) : LRUReplacer :=
  let r := if success then r.remove f else r
  { r with isEvicting := update r.isEvicting f false }

/-- `pin`: the frame may not be evicted. -/
def pin (r : LRUReplacer) (f : FrameId) : LRUReplacer := r.remove f

/-- `unpin`: the frame is the one used last. -/
def unpin (r : LRUReplacer) (f : FrameId) : Outcome LRUReplacer := do
  let r := r.remove f
  let lruList := r.lruLists (partitionIdx f)
  cassert (¬ lruList.length ≥ r.maxSize)
  return { r with lruLists := update r.lruLists (partitionIdx f) (f :: lruList) }

end LRUReplacer

/-- `BufferPool` -/
structure Pool where
  pages : FrameId → Frame
  /-- `page_tables` -/
  pageTable : PageId → Option FrameId
  freeLists : Nat → List FrameId
  replacer : LRUReplacer

namespace Pool

/-- `get_partition_idx` -/
def partitionIdx (p : PageId) : Nat := p % NUM_BUFFER_PARTITION

/-- The empty pool. -/
def init (poolSize : Nat) : Pool where
  pages _ := { pageId := none, pinCount := 0 }
  pageTable _ := none
  freeLists i := (List.range poolSize).filter fun f => partitionIdx f = i
  replacer := .init poolSize

/-- One frame is written. -/
def setFrame (pool : Pool) (f : FrameId) (frame : Frame) : Pool :=
  { pool with pages := update pool.pages f frame }

/-- `fetch_page`: the page must be in the pool. -/
def fetchPage (pool : Pool) (p : PageId) : Outcome Pool :=
  match pool.pageTable p with
  | none => .abort
  | some f =>
    let page := pool.pages f
    let pool := if page.pinCount = 0 then { pool with replacer := pool.replacer.pin f } else pool
    return pool.setFrame f { page with pinCount := page.pinCount + 1 }

/-- `release_page`: the frame goes back to the free list of the page's partition. -/
def releasePage (pool : Pool) (p : PageId) : Outcome Pool :=
  match pool.pageTable p with
  | none => .abort
  | some f =>
    return { pool with
      pages := update pool.pages f { pageId := none, pinCount := 0 }
      pageTable := update pool.pageTable p none
      replacer := pool.replacer.pin f
      freeLists := update pool.freeLists (partitionIdx p)
        (pool.freeLists (partitionIdx p) ++ [f]) }

/-- `unpin_page`: nobody uses the page any more. -/
def unpinPage (pool : Pool) (p : PageId) : Outcome Pool :=
  match pool.pageTable p with
  | none => .abort
  | some f => do
    let replacer ← pool.replacer.unpin f
    return { pool.setFrame f { pool.pages f with pinCount := 0 } with replacer := replacer }

/-- `checkIfDirectlyPutInBuffer`: take a frame from the free list of the page's partition. -/
def checkIfDirectlyPutInBuffer (pool : Pool) (p : PageId) : Outcome (Pool × Option FrameId) := do
  cassert (pool.pageTable p = none)
  match pool.freeLists (partitionIdx p) with
  | [] => return (pool, none)
  | f :: rest =>
    return ({ pool with freeLists := update pool.freeLists (partitionIdx p) rest }, some f)

/-- `insert_or_replace`: page `p` gets the frame `f`, in place of the page `replaced` if there is
one. The pin count of the frame stays. -/
def insertOrReplace (pool : Pool) (p : PageId) (f : FrameId) (replaced : Option PageId) :
    Outcome Pool := do
  cassert (∀ old, replaced = some old → pool.pageTable old ≠ none)
  let pageTable :=
    match replaced with
    | none => pool.pageTable
    | some old => update pool.pageTable old none
  cassert (pageTable p = none)
  return { pool with
    pages := update pool.pages f { pool.pages f with pageId := some p }
    pageTable := update pageTable p (some f)
    replacer := pool.replacer.pin f }

end Pool

end BufferPool
