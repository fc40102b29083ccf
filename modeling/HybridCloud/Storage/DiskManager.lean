import HybridCloud.Lib.Transition

/-!
# The files of the storage server

`DiskManager` (src/core/storage/disk_manager.cc) keeps the open files of the storage server in
`path2fd_` and `fd2path_`, and in `fd2pageno_` the number of the next page of each of them. Below it
are the kernel's own tables: the directory, which gives a path its file, and the descriptors, which
give a number its file. `open` returns the lowest descriptor that is not in use.

A file is a number of pages; a page that was never written reads as zeros. The type of page contents
is a parameter, with the page of zeros as its zero. Files are numbered in the order of their
creation, so that a path which is removed and created again names another file.
-/

namespace StoragePool

open Outcome Function

variable {γ : Type} [Zero γ]

/-- The contents of a file, page by page. -/
structure DiskFile (γ : Type) [Zero γ] where
  pages : Nat → γ
  size : Nat
  beyond : ∀ p, size ≤ p → pages p = 0

namespace DiskFile

/-- A file of length 0. -/
def empty : DiskFile γ where
  pages _ := 0
  size := 0
  beyond _ _ := rfl

/-- `pwrite` of a whole page; the file grows up to it. -/
def write (file : DiskFile γ) (p : Nat) (data : γ) : DiskFile γ where
  pages := update file.pages p data
  size := max file.size (p + 1)
  beyond := by
    intro q hq
    rw [update_of_ne (by omega)]
    exact file.beyond q (by omega)

@[simp] theorem write_pages (file : DiskFile γ) (p : Nat) (data : γ) :
    (file.write p data).pages = update file.pages p data := rfl

@[simp] theorem write_size (file : DiskFile γ) (p : Nat) (data : γ) :
    (file.write p data).size = max file.size (p + 1) := rfl

end DiskFile

/-- The files and the tables of the disk manager. -/
structure DiskManager (γ : Type) [Zero γ] where
  /-- The number of descriptors that the process may have. -/
  maxFd : Nat
  /-- The files of the open descriptors. -/
  fds : Nat → Option Nat
  directory : String → Option Nat
  files : Nat → DiskFile γ
  /-- The number of files that were ever created. -/
  created : Nat
  path2fd : String → Option Nat
  fd2path : Nat → Option String
  fd2pageno : Nat → Nat

namespace DiskManager

/-- The lowest of the `n` descriptors from `fd` on that is not in use. -/
def lowestFrom (fds : Nat → Option Nat) : Nat → Nat → Option Nat
  | 0, _ => none
  | n + 1, fd => if fds fd = none then some fd else lowestFrom fds n (fd + 1)

/-- The descriptor that `open` returns; 0 to 2 are the standard streams. -/
def unusedFd (d : DiskManager γ) : Option Nat := lowestFrom d.fds d.maxFd 3

/-- `DiskManager::write_page`; nothing is written through a descriptor that is not open. -/
def writePage (d : DiskManager γ) (fd pageNo : Nat) (data : γ) : Option (DiskManager γ) :=
  match d.fds fd with
  | none => none
  | some file =>
    some { d with files := update d.files file ((d.files file).write pageNo data) }

/-- `DiskManager::read_page`; a read past the end of the file is short and throws. -/
def readPage (d : DiskManager γ) (fd pageNo : Nat) : Option γ :=
  match d.fds fd with
  | none => none
  | some file =>
    if pageNo < (d.files file).size then some ((d.files file).pages pageNo) else none

/-- `allocate_page`. -/
def allocatePage (d : DiskManager γ) (fd : Nat) : DiskManager γ × Nat :=
  ({ d with fd2pageno := update d.fd2pageno fd (d.fd2pageno fd + 1) }, d.fd2pageno fd)

/-- `set_fd2pageno`. -/
def setFd2pageno (d : DiskManager γ) (fd startPageNo : Nat) : DiskManager γ :=
  { d with fd2pageno := update d.fd2pageno fd startPageNo }

/-- `is_file`. -/
def isFile (d : DiskManager γ) (path : String) : Bool := (d.directory path).isSome

/-- `create_file`. -/
def createFile (d : DiskManager γ) (path : String) : Outcome (DiskManager γ) := do
  cassert (d.isFile path = false)
  cassert (d.path2fd path = none)
  match d.unusedFd with
  | none => .abort
  | some fd =>
    return { d with
      fds := update d.fds fd (some d.created)
      directory := update d.directory path (some d.created)
      files := update d.files d.created DiskFile.empty
      created := d.created + 1
      path2fd := update d.path2fd path (some fd)
      fd2path := update d.fd2path fd (some path)
      fd2pageno := update d.fd2pageno fd 0 }

/-- `DiskManager::destroy_file`, which throws for a file that is open. -/
def destroyFile (d : DiskManager γ) (path : String) : Outcome (DiskManager γ) := do
  cassert (d.isFile path = true)
  cassert (d.path2fd path = none)
  return { d with directory := update d.directory path none }

/-- `DiskManager::open_file`; no descriptor for the -1 of the source. -/
def openFile (d : DiskManager γ) (path : String) : Outcome (DiskManager γ × Option Nat) :=
  match d.path2fd path with
  | some fd => do
    cassert (d.fd2path fd ≠ none)
    return (d, some fd)
  | none =>
    match d.directory path, d.unusedFd with
    | some file, some fd => do
      cassert (d.fd2path fd = none)
      return ({ d with
        fds := update d.fds fd (some file)
        path2fd := update d.path2fd path (some fd)
        fd2path := update d.fd2path fd (some path)
        fd2pageno := update d.fd2pageno fd (d.files file).size }, some fd)
    | _, _ => return (d, none)

/-- `DiskManager::close_file`; `close` fails for a descriptor that is not open. -/
def closeFile (d : DiskManager γ) (fd : Nat) : Outcome (DiskManager γ) := do
  cassert (d.fds fd ≠ none)
  match d.fd2path fd with
  | none => .abort
  | some path =>
    return { d with
      fds := update d.fds fd none
      path2fd := update d.path2fd path none
      fd2path := update d.fd2path fd none
      fd2pageno := update d.fd2pageno fd 0 }

end DiskManager

end StoragePool
