import HybridCloud.Storage.BufferPoolManager

/-!
# The files of a table

What `SmManager::create_table`, `drop_table` and `open_db` (src/core/storage/sm_manager.cc) do with
the files of a table: the heap file, its free space map `_fsm` and, for a table with a primary key,
its index `_bl`. The files come and go through `DiskManager`; of the buffer pool only
`flush_all_pages` is called, by `open_db` before it closes an index.

The pages that are written have their contents from `TableImage`. The descriptor of a table that is
open is that of its `RmFileHandle`.
-/

namespace StoragePool

open Outcome

variable {γ : Type} [Zero γ]

/-- The pages that the files of a table begin with. -/
structure TableImage (γ : Type) where
  /-- Page 0 of the heap file. -/
  fileHdr : γ
  /-- Pages 0, 1 and 2 of the index: leaf header, file header and root. -/
  leafHeader : γ
  indexHdr : γ
  root : γ
  /-- Page 0 of the free space map, and the pages after it. -/
  fsmHdr : γ
  fsmPages : List γ

namespace StorageBufferPoolManager

variable (s : StorageBufferPoolManager γ)

/-- `destroy_file`, if `is_file` -/
def destroyIfFile (path : String) : Outcome (StorageBufferPoolManager γ) :=
  if s.disk.isFile path then s.onDisk fun d => d.destroyFile path else return s

/-- `open_file`, with the descriptor that is used from there on; -1 makes the next call fail. -/
def openFd (path : String) : Outcome (StorageBufferPoolManager γ × Nat) := do
  let (s, fd) ← s.openFile path
  match fd with
  | none => .abort
  | some fd => return (s, fd)

/-- Consecutive pages are written, from `pageNo` on. -/
def writePages (fd : Nat) : Nat → List γ → StorageBufferPoolManager γ →
    Outcome (StorageBufferPoolManager γ)
  | _, [], s => return s
  | pageNo, data :: rest, s => do
    let s ← s.writeDisk fd pageNo data
    writePages fd (pageNo + 1) rest s

/-- `DiskManager::close_file` -/
def closeFd (fd : Nat) : Outcome (StorageBufferPoolManager γ) := s.onDisk fun d => d.closeFile fd

/-- `RmManager::create_file` -/
def rmCreateFile (path : String) (page0 : γ) : Outcome (StorageBufferPoolManager γ) := do
  let s ← s.destroyIfFile path
  let s ← s.createFile path
  let (s, fd) ← s.openFd path
  let s ← s.writeDisk fd 0 page0
  s.closeFd fd

/-- The index file is made anew, and the constructor of `S_BLinkIndexHandle` fills it; it stays open,
and the handle has its descriptor. -/
def createIndex (table : String) (image : TableImage γ) :
    Outcome (StorageBufferPoolManager γ × Nat) := do
  let s ← s.destroyIfFile (table ++ "_bl")
  let s ← s.createFile (table ++ "_bl")
  let (s, fd) ← s.openFd (table ++ "_bl")
  let s ← writePages fd 0 [image.leafHeader, image.indexHdr, image.root] s
  return ({ s with disk := s.disk.setFd2pageno fd 3 }, fd)

/-- The free space map is made anew. -/
def createFsm (table : String) (image : TableImage γ) : Outcome (StorageBufferPoolManager γ) := do
  let s ← s.rmCreateFile (table ++ "_fsm") image.fsmHdr
  let (s, fd) ← s.openFd (table ++ "_fsm")
  let s ← s.writeDisk fd 0 image.fsmHdr
  let s ← writePages fd 1 image.fsmPages s
  s.closeFd fd

/-- `SmManager::create_primary`, for a table with a primary key. -/
def createPrimary (table : String) (primaryKey : Bool) (image : TableImage γ) :
    Outcome (StorageBufferPoolManager γ) :=
  if primaryKey then do
    let (s, _) ← s.createIndex table image
    return s
  else
    return s

/-- `SmManager::create_table`. -/
def createTable (table : String) (primaryKey : Bool) (image : TableImage γ) :
    Outcome (StorageBufferPoolManager γ) := do
  let s ← s.rmCreateFile table image.fileHdr
  let (s, fd) ← s.openFd table
  let s ← s.writeDisk fd 0 image.fileHdr
  let s ← s.closeFd fd
  let (s, fd) ← s.openFd table
  let s := { s with disk := s.disk.setFd2pageno fd 1 }
  let s ← s.createPrimary table primaryKey image
  s.createFsm table image

/-- A file is closed, after it has been opened if need be, and removed. -/
def dropFile (path : String) : Outcome (StorageBufferPoolManager γ) := do
  let (s, fd) ← s.openFd path
  let s ← s.closeFd fd
  s.onDisk fun d => d.destroyFile path

/-- `SmManager::drop_table` of a table whose file handle has the descriptor `fd`. -/
def dropTable (table : String) (primaryKey : Bool) (fd : Nat) :
    Outcome (StorageBufferPoolManager γ) := do
  let s ← s.closeFd fd
  let s ← s.onDisk fun d => d.destroyFile table
  let s ← s.dropFile (table ++ "_fsm")
  if primaryKey then s.dropFile (table ++ "_bl") else return s

/-- The index of a table with a primary key, and its descriptor. -/
def openIndex (table : String) (primaryKey : Bool) (image : TableImage γ) :
    Outcome (StorageBufferPoolManager γ × Option Nat) :=
  if primaryKey then do
    let (s, fd) ← s.createIndex table image
    return (s, some fd)
  else
    return (s, none)

/-- The index is written to the disk and closed. -/
def closeIndex (index : Option Nat) (image : TableImage γ) : Outcome (StorageBufferPoolManager γ) :=
  match index with
  | none => return s
  | some fd => do
    let s ← s.writeDisk fd 1 image.indexHdr
    let s ← s.flushFilePages fd
    s.closeFd fd

/-- One table of `SmManager::open_db`: the heap file is opened, index and free space map are built
again. `scan` is what the loop over the heap pages does, given the descriptors of the heap file and of
the index: it fetches and unpins the pages of the heap and inserts into the index. The destructor of
`S_SecFSM` opens the free space map once more, and leaves it open. -/
def openTable (table : String) (primaryKey : Bool) (image : TableImage γ) (numPages : Nat)
    (scan : Nat → Option Nat → List (Action γ)) : Outcome (StorageBufferPoolManager γ) := do
  let (s, fd) ← s.openFd table
  let s := { s with disk := s.disk.setFd2pageno fd numPages }
  let (s, index) ← s.openIndex table primaryKey image
  let s ← s.destroyIfFile (table ++ "_fsm")
  let s ← s.createFile (table ++ "_fsm")
  let (s, fsmFd) ← s.openFd (table ++ "_fsm")
  let s ← s.writeDisk fsmFd 0 image.fsmHdr
  let s ← follow step (fun _ _ => True) (scan fd index) s
  let s ← writePages fsmFd 1 image.fsmPages s
  let s ← s.closeFd fsmFd
  let s ← s.closeIndex index image
  let (s, _) ← s.openFd (table ++ "_fsm")
  return s

end StorageBufferPoolManager

end StoragePool
