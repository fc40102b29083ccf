import HybridCloud.Storage.DiskManager

/-!
# The buffer pool of the storage server

`StorageBufferPoolManager` (src/core/storage/buffer/storage_bufferpool.cc) caches pages of the open
files in a fixed number of frames. A page is named by the descriptor of its file and its number. The
page table gives the frame of a cached page; a frame that is not in use is on the free list, and one
that nobody has pinned is in the LRU replacer (src/core/storage/buffer/replacer/lru_replacer.cc), the
most recently used one first. All operations hold `latch_`, so that each of them is one step.
`fetch_page` throws when the page cannot be read, and the frame is then lost to the pool.
-/

namespace StoragePool

open Outcome Function

variable {γ : Type} [Zero γ]

/-- The descriptor of the file, which the source calls `table_id`, and the number of the page. -/
structure PageId where
  tableId : Nat
  pageNo : Nat
  deriving DecidableEq, Repr

/-- A frame: `Page` of src/core/base/page.h. -/
structure Frame (γ : Type) where
  /-- `id_`; none when its page number is `INVALID_PAGE_ID`. -/
  id : Option PageId
  data : γ
  isDirty : Bool
  pinCount : Nat
  /-- Ghost: the file that the page was loaded from or created for. -/
  file : Option Nat

/-- A frame without a page. -/
def Frame.unused : Frame γ where
  id := none
  data := 0
  isDirty := false
  pinCount := 0
  file := none

/-- The frame has a page of the file with this descriptor. -/
def Frame.ofFile (frame : Frame γ) (fd : Nat) : Bool :=
  match frame.id with
  | none => false
  | some pid => pid.tableId == fd

/-- The contents of a page as its users see them. -/
structure Version (γ : Type) where
  /-- What the last unpin with `is_dirty` left; the contents of the file if there was none. -/
  left : γ
  /-- What was written to the frame since then, last one first. -/
  later : List γ

/-- The contents that the last dirty unpin left, or some that were written since. -/
def Version.has (v : Version γ) (data : γ) : Prop := data = v.left ∨ data ∈ v.later

instance [DecidableEq γ] (v : Version γ) (data : γ) : Decidable (v.has data) :=
  inferInstanceAs (Decidable (_ ∨ _))

/-- The pool of the storage node and the disk below it. -/
structure StorageBufferPoolManager (γ : Type) [Zero γ] where
  disk : DiskManager γ
  poolSize : Nat
  pages : Nat → Frame γ
  pageTable : PageId → Option Nat
  freeList : List Nat
  /-- `LRUlist_` of the replacer. -/
  lruList : List Nat
  /-- Ghost: the versions of the pages of each file. -/
  version : Nat → Nat → Version γ
  /-- Ghost: the frames on the free list that `delete_page` has put there. -/
  deleted : Nat → Bool
  /-- Ghost: the number of frames written to a file that they do not belong to. -/
  strayWrites : Nat

namespace StorageBufferPoolManager

variable (s : StorageBufferPoolManager γ)

/-- One frame is written. -/
def setPage (f : Nat) (frame : Frame γ) : StorageBufferPoolManager γ :=
  { s with pages := update s.pages f frame }

/-- The page is given new contents; the file is that of its descriptor. -/
def setVersion (pid : PageId) (v : Version γ) : StorageBufferPoolManager γ :=
  match s.disk.fds pid.tableId with
  | none => s
  | some file =>
    { s with
      version := update s.version file (update (s.version file) pid.pageNo v) }

/-- The version of a page of an open file. -/
def versionOf (pid : PageId) : Option (Version γ) :=
  (s.disk.fds pid.tableId).map fun file => s.version file pid.pageNo

/-- `LRUReplacer::pin` -/
def replacerPin (f : Nat) : StorageBufferPoolManager γ :=
  { s with lruList := s.lruList.erase f }

/-- `LRUReplacer::unpin` -/
def replacerUnpin (f : Nat) : StorageBufferPoolManager γ :=
  if f ∈ s.lruList ∨ s.lruList.length = s.poolSize then s
  else { s with lruList := f :: s.lruList }

/-- `find_victim_page`, with `LRUReplacer::victim` -/
def findVictimPage : Option (Nat × StorageBufferPoolManager γ) :=
  match s.freeList with
  | f :: rest => some (f, { s with freeList := rest })
  | [] =>
    match s.lruList.getLast? with
    | none => none
    | some f => some (f, { s with lruList := s.lruList.dropLast })

/-- `disk_manager_->write_page` of a frame, after which the frame is clean. Without a page number the
offset of the write is negative, and it fails like one to a file that is not open. -/
def writeFrame (f : Nat) : Option (StorageBufferPoolManager γ) :=
  match (s.pages f).id with
  | none => none
  | some pid =>
    match s.disk.writePage pid.tableId pid.pageNo (s.pages f).data with
    | none => none
    | some disk =>
      some { s with
        disk := disk
        pages := update s.pages f { s.pages f with isDirty := false }
        strayWrites :=
          if s.disk.fds pid.tableId = (s.pages f).file then s.strayWrites else s.strayWrites + 1 }

/-- `page_table_.erase` of the page of a frame. -/
def eraseEntry (f : Nat) : PageId → Option Nat :=
  match (s.pages f).id with
  | none => s.pageTable
  | some pid => update s.pageTable pid none

/-- The frame is written if it is dirty. -/
def cleanFrame (f : Nat) : Option (StorageBufferPoolManager γ) :=
  if (s.pages f).isDirty then s.writeFrame f else some s

/-- `update_page`; the dirty page is written first, which may throw. -/
def updatePage (f : Nat) (newPageId : Option PageId) : Option (StorageBufferPoolManager γ) :=
  match s.cleanFrame f with
  | none => none
  | some s =>
    some { s with
      pageTable :=
        match newPageId with
        | none => s.eraseEntry f
        | some pid => update (s.eraseEntry f) pid (some f)
      pages := update s.pages f
        { s.pages f with
          data := 0
          id := newPageId
          file := newPageId.bind fun pid => s.disk.fds pid.tableId }
      deleted := update s.deleted f false }

/-- `replacer_->pin` and `pin_count_ = 1` -/
def pinFirst (f : Nat) : StorageBufferPoolManager γ :=
  (s.replacerPin f).setPage f { s.pages f with pinCount := 1 }

/-- `fetch_page`: the frame of the page, or none when the page could not be read. -/
def fetchPage (pid : PageId) : Outcome (StorageBufferPoolManager γ × Option Nat) :=
  match s.pageTable pid with
  | some f =>
    return ((s.replacerPin f).setPage f { s.pages f with pinCount := (s.pages f).pinCount + 1 },
      some f)
  | none =>
    match s.findVictimPage with
    | none => .abort
    | some (f, s) =>
      match s.updatePage f (some pid) with
      | none => return (s, none)
      | some s =>
        match s.disk.readPage pid.tableId pid.pageNo with
        | none => return (s, none)
        | some data => return ((s.setPage f { s.pages f with data := data }).pinFirst f, some f)

/-- `unpin_page`. -/
def unpinPage (pid : PageId) (isDirty : Bool) : StorageBufferPoolManager γ × Bool :=
  match s.pageTable pid with
  | none => (s, false)
  | some f =>
    if (s.pages f).pinCount = 0 then
      (s, false)
    else
      let s := s.setPage f { s.pages f with pinCount := (s.pages f).pinCount - 1 }
      let s := if (s.pages f).pinCount = 0 then s.replacerUnpin f else s
      if isDirty then
        ((s.setPage f { s.pages f with isDirty := true }).setVersion pid
          { left := (s.pages f).data, later := [] }, true)
      else
        (s, true)

/-- `flush_page`: a cached page is written, dirty or not. -/
def flushPage (pid : PageId) : Outcome (StorageBufferPoolManager γ × Bool) :=
  match s.pageTable pid with
  | none => return (s, false)
  | some f =>
    match s.writeFrame f with
    | none => .abort
    | some s => return (s, true)

/-- `new_page`: the new page and its frame, or none when there is no frame for it. -/
def newPage (tableId : Nat) : Outcome (StorageBufferPoolManager γ × Option (PageId × Nat)) :=
  match s.findVictimPage with
  | none => return (s, none)
  | some (f, s) =>
    let (disk, pageNo) := s.disk.allocatePage tableId
    let pid : PageId := { tableId := tableId, pageNo := pageNo }
    match { s with disk := disk }.updatePage f (some pid) with
    | none => .abort
    | some s =>
      match s.versionOf pid with
      | none => return (s.pinFirst f, some (pid, f))
      | some v =>
        return ((s.pinFirst f).setVersion pid { v with later := 0 :: v.later }, some (pid, f))

/-- `delete_page`. -/
def deletePage (pid : PageId) : Outcome (StorageBufferPoolManager γ × Bool) :=
  match s.pageTable pid with
  | none => return (s, true)
  | some f =>
    if 0 < (s.pages f).pinCount then
      return (s, false)
    else
      match s.updatePage f none with
      | none => .abort
      | some s =>
        return ({ s with
          freeList := s.freeList ++ [f]
          deleted := update s.deleted f true }, true)

/-- The loop of `flush_all_pages` over the frames that `which` selects. -/
def flushPages (which : PageId → Bool) : List Nat → StorageBufferPoolManager γ →
    Outcome (StorageBufferPoolManager γ)
  | [], s => return s
  | f :: fs, s =>
    match (s.pages f).id with
    | none => flushPages which fs s
    | some pid =>
      if which pid && (s.pages f).isDirty then
        match s.writeFrame f with
        | none => .abort
        | some s => flushPages which fs s
      else
        flushPages which fs s

/-- `flush_all_pages(fd)` -/
def flushFilePages (fd : Nat) : Outcome (StorageBufferPoolManager γ) :=
  flushPages (fun pid => pid.tableId == fd) (List.range s.poolSize) s

/-- `flush_all_pages()` -/
def flushAllPages : Outcome (StorageBufferPoolManager γ) :=
  flushPages (fun _ => true) (List.range s.poolSize) s

/-- What `clear_file_pages` does with a frame of the file, once it is clean. -/
def dropFrame (f : Nat) : StorageBufferPoolManager γ :=
  { s with
    pageTable := s.eraseEntry f
    lruList := s.lruList.erase f
    pages := update s.pages f Frame.unused
    freeList := s.freeList ++ [f] }

/-- The loop of `clear_file_pages`. -/
def clearPages (fd : Nat) : List Nat → StorageBufferPoolManager γ →
    Outcome (StorageBufferPoolManager γ)
  | [], s => return s
  | f :: fs, s =>
    match (s.pages f).id with
    | none => clearPages fd fs s
    | some pid =>
      if pid.tableId = fd then
        match s.cleanFrame f with
        | none => .abort
        | some s => clearPages fd fs (s.dropFrame f)
      else
        clearPages fd fs s

/-- `clear_file_pages`. -/
def clearFilePages (fd : Nat) : Outcome (StorageBufferPoolManager γ) :=
  clearPages fd (List.range s.poolSize) s

/-- A user of the pool writes to a page that it has fetched and not unpinned yet. -/
def writeData (pid : PageId) (data : γ) : Outcome (StorageBufferPoolManager γ) :=
  match s.pageTable pid, s.versionOf pid with
  | some f, some v => do
    await (0 < (s.pages f).pinCount)
    return (s.setPage f { s.pages f with data := data }).setVersion pid
      { v with later := data :: v.later }
  | _, _ => .blocked

/-- `disk_manager_->write_page` past the pool. -/
def writeDisk (fd pageNo : Nat) (data : γ) : Outcome (StorageBufferPoolManager γ) :=
  match s.disk.writePage fd pageNo data with
  | none => .abort
  | some disk =>
    return { s with disk := disk }.setVersion { tableId := fd, pageNo := pageNo }
      { left := data, later := [] }

/-- What the storage server does with the pool and with the files below it. -/
inductive Action (γ : Type) where
  | fetchPage (pid : PageId)
  | unpinPage (pid : PageId) (isDirty : Bool)
  | writeData (pid : PageId) (data : γ)
  | newPage (tableId : Nat)
  | deletePage (pid : PageId)
  | flushPage (pid : PageId)
  | flushFilePages (fd : Nat)
  | flushAllPages
  | clearFilePages (fd : Nat)
  | createFile (path : String)
  | openFile (path : String)
  | closeFile (fd : Nat)
  | destroyFile (path : String)
  | setFd2pageno (fd startPageNo : Nat)
  | writeDisk (fd pageNo : Nat) (data : γ)

/-- A call of the disk manager that leaves the pages of the files alone. -/
def onDisk (call : DiskManager γ → Outcome (DiskManager γ)) :
    Outcome (StorageBufferPoolManager γ) := do
  let disk ← call s.disk
  return { s with disk := disk }

/-- `create_file`; the new file has no contents. -/
def createFile (path : String) : Outcome (StorageBufferPoolManager γ) := do
  let disk ← s.disk.createFile path
  return { s with
    disk := disk
    version := update s.version s.disk.created fun _ => { left := 0, later := [] } }

/-- `open_file`, with the descriptor that it returns. -/
def openFile (path : String) : Outcome (StorageBufferPoolManager γ × Option Nat) := do
  let (disk, fd) ← s.disk.openFile path
  return ({ s with disk := disk }, fd)

/-- One call. -/
def step (s : StorageBufferPoolManager γ) : Action γ → Outcome (StorageBufferPoolManager γ)
  | .fetchPage pid => do
    let (s, _) ← s.fetchPage pid
    return s
  | .unpinPage pid isDirty => return (s.unpinPage pid isDirty).1
  | .writeData pid data => s.writeData pid data
  | .newPage tableId => do
    let (s, _) ← s.newPage tableId
    return s
  | .deletePage pid => do
    let (s, _) ← s.deletePage pid
    return s
  | .flushPage pid => do
    let (s, _) ← s.flushPage pid
    return s
  | .flushFilePages fd => s.flushFilePages fd
  | .flushAllPages => s.flushAllPages
  | .clearFilePages fd => s.clearFilePages fd
  | .createFile path => s.createFile path
  | .openFile path => do
    let (s, _) ← s.openFile path
    return s
  | .closeFile fd => s.onDisk fun d => d.closeFile fd
  | .destroyFile path => s.onDisk fun d => d.destroyFile path
  | .setFd2pageno fd startPageNo => return { s with disk := s.disk.setFd2pageno fd startPageNo }
  | .writeDisk fd pageNo data => s.writeDisk fd pageNo data

/-- An empty pool. -/
def start (poolSize : Nat) (disk : DiskManager γ) : StorageBufferPoolManager γ where
  disk := disk
  poolSize := poolSize
  pages _ := Frame.unused
  pageTable _ := none
  freeList := List.range poolSize
  lruList := []
  version file p := { left := (disk.files file).pages p, later := [] }
  deleted _ := false
  strayWrites := 0

/-- The page is one that `fetch_page` can return: it is cached, or in an open file. -/
def Readable (pid : PageId) : Prop :=
  s.pageTable pid ≠ none ∨ s.disk.readPage pid.tableId pid.pageNo ≠ none

/-- No page of the file is pinned. -/
def Unpinned (fd : Nat) : Prop :=
  ∀ f < s.poolSize, (s.pages f).ofFile fd = true → (s.pages f).pinCount = 0

/-- No page of the file is in the pool. -/
def Uncached (fd : Nat) : Prop := ∀ f < s.poolSize, (s.pages f).ofFile fd = false

/-- Operations of the pool on open files: a page that is fetched exists, a page is created in an open
file, and no page of a file is pinned when the file is cleared. -/
def OnOpenFiles : Action γ → Prop
  | .fetchPage pid => s.Readable pid
  | .newPage tableId => s.disk.fds tableId ≠ none
  | .clearFilePages fd => s.Unpinned fd
  | .unpinPage .. | .writeData .. | .deletePage _ | .flushPage _ | .flushFilePages _
  | .flushAllPages => True
  | .createFile _ | .openFile _ | .closeFile _ | .destroyFile _ | .setFd2pageno ..
  | .writeDisk .. => False

/-- A file is closed only when the pool has no page of it, and the pages that are written past the
pool or created are not cached. -/
def ClearedBeforeClose : Action γ → Prop
  | .fetchPage pid => s.Readable pid
  | .newPage tableId =>
    s.disk.fds tableId ≠ none ∧
      s.pageTable { tableId := tableId, pageNo := s.disk.fd2pageno tableId } = none
  | .clearFilePages fd => s.Unpinned fd
  | .closeFile fd => s.Uncached fd
  | .writeDisk fd pageNo _ => s.pageTable { tableId := fd, pageNo := pageNo } = none
  | _ => True

instance [DecidableEq γ] (pid : PageId) : Decidable (s.Readable pid) :=
  inferInstanceAs (Decidable (_ ∨ _))

instance (fd : Nat) : Decidable (s.Unpinned fd) :=
  inferInstanceAs (Decidable (∀ f < s.poolSize, _ → _))

instance (fd : Nat) : Decidable (s.Uncached fd) :=
  inferInstanceAs (Decidable (∀ f < s.poolSize, _))

instance [DecidableEq γ] (a : Action γ) : Decidable (s.OnOpenFiles a) :=
  match a with
  | .fetchPage pid => inferInstanceAs (Decidable (s.Readable pid))
  | .newPage tableId => inferInstanceAs (Decidable (s.disk.fds tableId ≠ none))
  | .clearFilePages fd => inferInstanceAs (Decidable (s.Unpinned fd))
  | .unpinPage .. | .writeData .. | .deletePage _ | .flushPage _ | .flushFilePages _
  | .flushAllPages => inferInstanceAs (Decidable True)
  | .createFile _ | .openFile _ | .closeFile _ | .destroyFile _ | .setFd2pageno ..
  | .writeDisk .. => inferInstanceAs (Decidable False)

instance [DecidableEq γ] (a : Action γ) : Decidable (s.ClearedBeforeClose a) :=
  match a with
  | .fetchPage pid => inferInstanceAs (Decidable (s.Readable pid))
  | .newPage _ => inferInstanceAs (Decidable (_ ∧ _))
  | .clearFilePages fd => inferInstanceAs (Decidable (s.Unpinned fd))
  | .closeFile fd => inferInstanceAs (Decidable (s.Uncached fd))
  | .writeDisk fd pageNo _ =>
    inferInstanceAs (Decidable (s.pageTable { tableId := fd, pageNo := pageNo } = none))
  | .unpinPage .. | .writeData .. | .deletePage _ | .flushPage _ | .flushFilePages _
  | .flushAllPages | .createFile _ | .openFile _ | .destroyFile _ | .setFd2pageno .. =>
    inferInstanceAs (Decidable True)

end StorageBufferPoolManager

end StoragePool
