import HybridCloud.Storage.Page
import HybridCloud.Lib.Transition

/-!
# `StoragePoolImpl::CreatePage`

Calls of `CreatePage` (src/core/storage/storage_rpc.cc) for one table run side by side. Each of them
takes a page number from `fd2pageno_`, writes a page of zeros, and then, unless the name of the table
looks like that of an index or of a free space map, reads the file header of page 0 and writes it back
with the new number of pages. A step is one call of `DiskManager` (src/core/storage/disk_manager.cc):
`allocate_page` has the mutex of the disk manager, while the reads and writes have no lock at all.
-/

namespace Storage

open Outcome

/-- `tablePath.find(part) != std::string::npos` -/
def contains (tablePath part : String) : Bool := decide (part.toList <:+: tablePath.toList)

/-- `!is_fsm && !is_blink` -/
def updatesFileHdr (tablePath : String) : Bool :=
  !contains tablePath "_fsm" && !contains tablePath "_bl"

/-- How far a call of `CreatePage` has got. -/
inductive CreatePageCall where
  | idle
  | allocated (newPageNo : Nat)
  | zeroed (newPageNo : Nat)
  /-- `page0_buf` has been read. -/
  | hdrRead (newPageNo : Nat) (fileHdr : RmFileHdr)
  | returned (newPageNo : Nat)
  deriving DecidableEq

/-- `new_page_no`, once the call has it. -/
def CreatePageCall.newPageNo : CreatePageCall → Option Nat
  | .idle => none
  | .allocated n | .zeroed n | .hdrRead n _ | .returned n => some n

/-- A table file and the calls of `CreatePage` on it. -/
structure CreatePageState where
  /-- `fd2pageno_[fd]` -/
  fd2pageno : Nat
  /-- The file header on page 0. -/
  fileHdr : RmFileHdr
  calls : Nat → CreatePageCall
  /-- Ghost: the page numbers of the calls that have written the file header, last one first. -/
  hdrWrites : List Nat

namespace CreatePageState

/-- `write_page` of `zero_page`; page 0 has the file header. -/
def writeZeroPage (s : CreatePageState) (newPageNo : Nat) : CreatePageState :=
  if newPageNo = 0 then { s with fileHdr := ⟨0, 0, 0, 0⟩ } else s

/-- A call moves on. -/
def setCall (s : CreatePageState) (c : Nat) (call : CreatePageCall) : CreatePageState :=
  { s with calls := Function.update s.calls c call }

/-- The next step of the call `c`. -/
def step (tablePath : String) (s : CreatePageState) (c : Nat) : Outcome CreatePageState :=
  match s.calls c with
  | .idle => return { s with fd2pageno := s.fd2pageno + 1 }.setCall c (.allocated s.fd2pageno)
  | .allocated newPageNo => return (s.writeZeroPage newPageNo).setCall c (.zeroed newPageNo)
  | .zeroed newPageNo =>
    if updatesFileHdr tablePath then
      return s.setCall c (.hdrRead newPageNo s.fileHdr)
    else
      return s.setCall c (.returned newPageNo)
  | .hdrRead newPageNo fileHdr =>
    return { s with
      fileHdr := { fileHdr with numPages := newPageNo + 1 }
      hdrWrites := newPageNo :: s.hdrWrites }.setCall c (.returned newPageNo)
  | .returned _ => .blocked

/-- The table before the calls: the file header has the number of pages. -/
def start (fileHdr : RmFileHdr) : CreatePageState where
  fd2pageno := fileHdr.numPages
  fileHdr := fileHdr
  calls _ := .idle
  hdrWrites := []

/-- Every call that was made has returned. -/
def Quiet (s : CreatePageState) : Prop := ∀ c, s.calls c = .idle ∨ ∃ n, s.calls c = .returned n

end CreatePageState

end Storage
