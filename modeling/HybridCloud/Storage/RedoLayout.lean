import HybridCloud.Storage.RecordLayout
import HybridCloud.Storage.Proofs.DiskManagerProofs

/-!
# The file header that redo goes by

For an UPDATE or a LOCK record `LogReplay::apply_single_log` (src/core/storage/logreplay.cc) computes
the offset of the row from the `RmFileHdr` of the table's file. Each of the two cases keeps the
headers it has read in a `file_hdr_cache` of its own, by descriptor, and takes none out again. A
descriptor is handed out again once its file is closed, so a header can be that of a file which is
gone.

Files are created, opened, closed and removed one call at a time and in any order; `create_table` and
`drop_table` are sequences of such calls. Of a page there are the LLSN and, on page 0, the file
header. A replayed record yields the ranges of bytes that it overwrites in its page.
-/

namespace HeapLayout

open Outcome StoragePool Function

/-- What redo reads of a page. -/
structure HeapPage where
  fileHdr : RmFileHdr
  llsn : Nat

instance : Zero HeapPage := ⟨⟨⟨0, 0, 0, 0⟩, 0⟩⟩

/-- The records that go by a kept header. -/
inductive LogType where
  | update
  | lock
  deriving DecidableEq

/-- An UPDATE or LOCK record; a LOCK record has no value. The rows of a table are on the pages after
that of the file header. -/
structure RowLog where
  type : LogType
  table : String
  pageNo : Nat
  slotNo : Nat
  valueSize : Nat
  lsn : Nat
  prevLsn : Nat
  on_heap : pageNo ≠ 0

namespace RowLog

variable (log : RowLog) (hdr : RmFileHdr)

/-- The two `update_value` calls for a record, each with its offset in the page and its length. -/
def writes : List (Nat × Nat) :=
  match log.type with
  | .update => [(hdr.tuple log.slotNo, sizeofItemkey + log.valueSize), (0, sizeofRmPageHdr)]
  | .lock => [(hdr.tuple log.slotNo + sizeofItemkey, sizeofDataItem), (0, sizeofRmPageHdr)]

/-- The record is of a row of such a table: its value is a whole row, which begins with a
`DataItem`. -/
def OfTable : Prop :=
  sizeofDataItem ≤ hdr.recordSize ∧ (log.type = .update → log.valueSize = hdr.recordSize)

variable {log hdr}

theorem writes_congr {hdr' : RmFileHdr} (h : hdr'.layout = hdr.layout) :
    log.writes hdr' = log.writes hdr := by
  show log.writes hdr'.layout = log.writes hdr.layout
  rw [h]

/-- The written bytes are the page header or bytes of the record's slot, all of them in the page. -/
def WritesSlot (log : RowLog) (hdr : RmFileHdr) (w : Nat × Nat) : Prop :=
  w = (0, sizeofRmPageHdr) ∨ hdr.tuple log.slotNo ≤ w.1 ∧
    w.1 + w.2 ≤ hdr.tuple log.slotNo + hdr.slotSize ∧ w.1 + w.2 ≤ PAGE_SIZE

theorem writes_slot (h : log.OfTable hdr) (inside : hdr.SlotsInside)
    (hslot : log.slotNo < hdr.numRecordsPerPage) : ∀ w ∈ log.writes hdr, log.WritesSlot hdr w := by
  have hpage := inside.inside log.slotNo hslot
  obtain ⟨hitem, hvalue⟩ := h
  unfold WritesSlot
  unfold writes
  unfold RmFileHdr.slotSize at hpage ⊢
  cases htype : log.type with
  | update =>
    have hsize := hvalue htype
    simp
    omega
  | lock =>
    simp
    omega

end RowLog

/-- The disk manager and the two caches of the replay thread. -/
structure RedoState where
  disk : DiskManager HeapPage
  fileHdrCache : LogType → Nat → Option RmFileHdr

namespace RedoState

variable (s : RedoState)

/-- The header for a descriptor, from the cache of the record's type or else from page 0. -/
def fetchHdr (type : LogType) (fd : Nat) : Outcome (RedoState × RmFileHdr) :=
  match s.fileHdrCache type fd with
  | some hdr => return (s, hdr)
  | none =>
    match s.disk.readPage fd 0 with
    | none => .abort
    | some page =>
      let cache := update (s.fileHdrCache type) fd (some page.fileHdr)
      return ({ s with fileHdrCache := update s.fileHdrCache type cache }, page.fileHdr)

/-- A page is read, changed and written back. -/
def changePage (fd pageNo : Nat) (change : HeapPage → HeapPage) : Outcome RedoState :=
  match s.disk.readPage fd pageNo with
  | none => .abort
  | some page =>
    match s.disk.writePage fd pageNo (change page) with
    | none => .abort
    | some disk => return { s with disk }

/-- The UPDATE and LOCK cases of `apply_single_log`. A record of something that is no table is
skipped, and so is one whose file does not open. -/
def applySingleLog (isTable : String → Bool) (log : RowLog) :
    Outcome (RedoState × List (Nat × Nat)) :=
  if isTable log.table then do
    let (disk, fd) ← s.disk.openFile log.table
    match fd with
    | none => return ({ s with disk }, [])
    | some fd =>
      let (s, hdr) ← fetchHdr { s with disk } log.type fd
      cassert (log.slotNo < hdr.numRecordsPerPage)
      cassert ((s.disk.readPage fd log.pageNo).any fun page =>
        page.llsn < log.lsn ∧ log.prevLsn = page.llsn)
      let s ← s.changePage fd log.pageNo fun page => { page with llsn := log.lsn }
      return (s, log.writes hdr)
  else
    return (s, [])

/-- `create_file` and the page with the file header; nothing is replayed between the two. -/
def createFile (path : String) (hdr : RmFileHdr) : Outcome RedoState := do
  let disk ← s.disk.createFile path
  let (disk, fd) ← disk.openFile path
  match fd.bind fun fd => disk.writePage fd 0 ⟨hdr, 0⟩ with
  | none => .abort
  | some disk => return { s with disk }

/-- `StoragePoolImpl::CreatePage`, once `allocate_page` has the number of the page: the page is filled
with zeros and counted in the file header. -/
def createPage (fd pageNo : Nat) : Outcome RedoState := do
  await (pageNo ≠ 0)
  match s.disk.writePage fd pageNo 0 with
  | none => .abort
  | some disk => changePage { s with disk } fd 0 fun page =>
    { page with fileHdr := { page.fileHdr with numPages := pageNo + 1 } }

end RedoState

/-- The calls of the disk manager, and redo. -/
inductive RedoAction where
  | createFile (path : String) (hdr : RmFileHdr)
  | createPage (fd pageNo : Nat)
  | openFile (path : String)
  | closeFile (fd : Nat)
  | destroyFile (path : String)
  | redo (log : RowLog)

namespace RedoState

variable (isTable : String → Bool)

/-- One call. -/
def step (s : RedoState) : RedoAction → Outcome RedoState
  | .createFile path hdr => s.createFile path hdr
  | .createPage fd pageNo => s.createPage fd pageNo
  | .openFile path => do
    let (disk, _) ← s.disk.openFile path
    return { s with disk }
  | .closeFile fd => do
    let disk ← s.disk.closeFile fd
    return { s with disk }
  | .destroyFile path => do
    let disk ← s.disk.destroyFile path
    return { s with disk }
  | .redo log => do
    let (s, _) ← s.applySingleLog isTable log
    return s

/-- A server that has just started on the files of `disk`. -/
def start (disk : DiskManager HeapPage) : RedoState where
  disk
  fileHdrCache _ _ := none

/-- Every header cached for the descriptor has the layout. -/
def Agrees (s : RedoState) (fd : Nat) (layout : RmFileHdr) : Prop :=
  ∀ type hdr, s.fileHdrCache type fd = some hdr → hdr.layout = layout

/-- The header in the file itself. -/
def hdrOf (s : RedoState) (file : Nat) : RmFileHdr := ((s.disk.files file).pages 0).fileHdr

/-- If the file has to be opened, it gets a descriptor that agrees with it. -/
def OpensAgreeing (s : RedoState) (path : String) : Prop :=
  s.disk.path2fd path = none → ∀ file fd, s.disk.directory path = some file →
    s.disk.unusedFd = some fd → s.Agrees fd (s.hdrOf file).layout

/-- A descriptor for which a header is cached is handed out only to a table of the same layout. -/
def Allowed (s : RedoState) : RedoAction → Prop
  | .createFile path hdr =>
    isTable path = true → ∀ fd, s.disk.unusedFd = some fd → s.Agrees fd hdr.layout
  | .openFile path => isTable path = true → s.OpensAgreeing path
  | .redo log => isTable log.table = true → s.OpensAgreeing log.table
  | _ => True

/-- What is cached for the descriptor of an open table has the layout of its file. -/
structure Inv (s : RedoState) : Prop where
  disk : s.disk.WellFormed
  agrees : ∀ path fd file, isTable path = true → s.disk.path2fd path = some fd →
    s.disk.fds fd = some file → s.Agrees fd (s.hdrOf file).layout

variable {isTable} {s s' : RedoState}

theorem Inv.start {disk : DiskManager HeapPage} (hdisk : disk.WellFormed) :
    (start disk).Inv isTable :=
  ⟨hdisk, fun _ _ _ _ _ _ _ _ hc => nomatch hc⟩

section Inv

variable (h : s.Inv isTable)
include h

theorem Inv.handOut {path : String} {fd file : Nat} {disk : DiskManager HeapPage}
    (hwf : disk.WellFormed) (hfree : s.disk.unusedFd = some fd)
    (hfds : disk.fds = update s.disk.fds fd (some file))
    (hpaths : disk.path2fd = update s.disk.path2fd path (some fd))
    (hkept : ∀ fd' file', s.disk.fds fd' = some file' →
      (hdrOf { s with disk } file').layout = (s.hdrOf file').layout)
    (hagree : isTable path = true → s.Agrees fd (hdrOf { s with disk } file).layout) :
    Inv isTable { s with disk } := by
  refine ⟨hwf, ?_⟩
  intro q fd' file' hq hpath hfile
  simp only [hfds, hpaths] at hpath hfile
  by_cases hqp : q = path
  · subst hqp
    simp only [update_self, Option.some.injEq] at hpath
    subst hpath
    simp only [update_self, Option.some.injEq] at hfile
    subst hfile
    exact hagree hq
  · simp only [update_of_ne hqp] at hpath
    have hne : fd' ≠ fd := by
      rintro rfl
      exact (h.disk.of_path q fd' hpath).1 (DiskManager.unusedFd_unused hfree)
    simp only [update_of_ne hne] at hfile
    rw [hkept fd' file' hfile]
    exact h.agrees q fd' file' hq hpath hfile

theorem Inv.openFile {path : String} {disk : DiskManager HeapPage} {fd : Option Nat}
    (hagree : isTable path = true → s.OpensAgreeing path)
    (hopen : s.disk.openFile path = .next (disk, fd)) :
    Inv isTable { s with disk } ∧ disk.path2fd path = fd := by
  have hwf := h.disk.openFile hopen
  obtain ⟨rfl, hfd⟩ | ⟨file, fd', hfree, hdir, hnone, rfl, rfl⟩ := DiskManager.openFile_next hopen
  · exact ⟨h, hfd.symm⟩
  · refine ⟨h.handOut hwf hfree rfl rfl (fun _ _ _ => rfl) ?_, update_self ..⟩
    intro htable
    exact hagree htable hnone file fd' hdir hfree

theorem Inv.createFile {path : String} {hdr : RmFileHdr}
    (hagree : Allowed isTable s (.createFile path hdr)) (hs : s.createFile path hdr = .next s') :
    s'.Inv isTable := by
  unfold RedoState.createFile at hs
  obtain ⟨disk, hcreate, hs⟩ := bind_eq_next.1 hs
  obtain ⟨⟨disk', fd⟩, hopen, hs⟩ := bind_eq_next.1 hs
  have hwf := h.disk.createFile hcreate
  obtain ⟨fd', hfree, -, -, rfl⟩ := DiskManager.createFile_next hcreate
  obtain ⟨rfl, rfl⟩ | ⟨_, _, _, _, hnone, _⟩ := DiskManager.openFile_next hopen
  · simp only [update_self, Option.bind_some, DiskManager.writePage] at hs
    obtain rfl := next.inj hs
    refine h.handOut { hwf with } hfree rfl rfl ?_ ?_
    · intro fd₁ file₁ hfile
      have hold : file₁ ≠ s.disk.created := Nat.ne_of_lt (h.disk.file_created hfile)
      simp [hdrOf, update_of_ne hold]
    · intro htable
      simpa [hdrOf] using hagree htable fd' hfree
  · simp at hnone

theorem Inv.closeFile {fd : Nat} {disk : DiskManager HeapPage}
    (hclose : s.disk.closeFile fd = .next disk) : Inv isTable { s with disk } := by
  have hwf := h.disk.closeFile hclose
  obtain ⟨path, -, hfd, rfl⟩ := DiskManager.closeFile_next hclose
  refine ⟨hwf, ?_⟩
  intro q fd₁ file hq hpath hfile
  have hqp : q ≠ path := by
    rintro rfl
    simp at hpath
  simp only [update_of_ne hqp] at hpath
  have hne : fd₁ ≠ fd := by
    rintro rfl
    have hback := (h.disk.of_path q fd₁ hpath).2
    rw [hfd] at hback
    exact hqp (Option.some.inj hback).symm
  simp only [update_of_ne hne] at hfile
  exact h.agrees q fd₁ file hq hpath hfile

theorem Inv.destroyFile {path : String} {disk : DiskManager HeapPage}
    (hdestroy : s.disk.destroyFile path = .next disk) : Inv isTable { s with disk } := by
  have hwf := h.disk.destroyFile hdestroy
  obtain ⟨-, rfl⟩ := DiskManager.destroyFile_next hdestroy
  exact ⟨hwf, h.agrees⟩

theorem Inv.writePage {fd pageNo : Nat} {page : HeapPage} {disk : DiskManager HeapPage}
    (hlayout : pageNo = 0 → ∀ file, s.disk.fds fd = some file →
      page.fileHdr.layout = (s.hdrOf file).layout)
    (hwrite : s.disk.writePage fd pageNo page = some disk) :
    Inv isTable { s with disk } ∧ disk.path2fd = s.disk.path2fd ∧ disk.fds = s.disk.fds ∧
      ∀ file, (hdrOf { s with disk } file).layout = (s.hdrOf file).layout := by
  obtain ⟨written, hfd, rfl⟩ := DiskManager.writePage_some hwrite
  have hsame : ∀ file, ((update s.disk.files written
      ((s.disk.files written).write pageNo page) file).pages 0).fileHdr.layout =
        (s.hdrOf file).layout := by
    intro file
    by_cases hfile : file = written
    · subst hfile
      by_cases hpage : pageNo = 0
      · simpa [hpage] using hlayout hpage file hfd
      · simp [hdrOf, update_of_ne (Ne.symm hpage)]
    · simp [hdrOf, update_of_ne hfile]
  refine ⟨⟨{ h.disk with }, ?_⟩, rfl, rfl, hsame⟩
  intro q fd₁ file hq hpath hfile
  have hkept := h.agrees q fd₁ file hq hpath hfile
  rwa [← hsame file] at hkept

theorem Inv.changePage {fd pageNo : Nat} {change : HeapPage → HeapPage}
    (hlayout : ∀ page, (change page).fileHdr.layout = page.fileHdr.layout)
    (hs : s.changePage fd pageNo change = .next s') :
    s'.Inv isTable ∧ s'.disk.path2fd = s.disk.path2fd ∧ s'.disk.fds = s.disk.fds ∧
      ∀ file, (s'.hdrOf file).layout = (s.hdrOf file).layout := by
  unfold RedoState.changePage at hs
  split at hs
  · cases hs
  rename_i page hread
  split at hs
  · cases hs
  rename_i disk hwrite
  obtain rfl := next.inj hs
  refine h.writePage ?_ hwrite
  rintro rfl file hfile
  obtain ⟨file', hfile', -, rfl⟩ := DiskManager.readPage_some hread
  rw [hfile] at hfile'
  obtain rfl := Option.some.inj hfile'
  exact hlayout _

theorem Inv.createPage {fd pageNo : Nat} (hs : s.createPage fd pageNo = .next s') :
    s'.Inv isTable := by
  unfold RedoState.createPage at hs
  obtain ⟨_, hpos, hs⟩ := bind_eq_next.1 hs
  split at hs
  · cases hs
  rename_i disk hwrite
  have hnew := h.writePage (fun h0 => absurd h0 (await_eq_next.1 hpos)) hwrite
  exact (hnew.1.changePage (by intro; rfl) hs).1

theorem Inv.fetchHdr {path : String} {fd : Nat} {type : LogType} {hdr : RmFileHdr}
    (htable : isTable path = true) (hpath : s.disk.path2fd path = some fd)
    (hs : s.fetchHdr type fd = .next (s', hdr)) : s'.Inv isTable ∧ s'.disk = s.disk ∧
      ∃ file, s.disk.fds fd = some file ∧ hdr.layout = (s.hdrOf file).layout := by
  obtain ⟨file, hfile⟩ := Option.ne_none_iff_exists'.1 (h.disk.of_path path fd hpath).1
  unfold RedoState.fetchHdr at hs
  split at hs
  · rename_i hdr' hcached
    obtain ⟨rfl, rfl⟩ := Prod.mk.inj (next.inj hs)
    exact ⟨h, rfl, file, hfile, h.agrees path fd file htable hpath hfile type _ hcached⟩
  split at hs
  · cases hs
  rename_i page hread
  obtain ⟨rfl, rfl⟩ := Prod.mk.inj (next.inj hs)
  obtain ⟨file', hfile', -, rfl⟩ := DiskManager.readPage_some hread
  refine ⟨⟨h.disk, ?_⟩, rfl, file', hfile', rfl⟩
  intro q fd₁ file₁ hq hpath₁ hfile₁ type₁ hdr₁ hcached
  by_cases htype : type₁ = type
  · subst htype
    by_cases hfd : fd₁ = fd
    · subst hfd
      simp only [update_self, Option.some.injEq] at hcached
      rw [hfile₁] at hfile'
      rw [← hcached, ← Option.some.inj hfile']
      rfl
    · simp only [update_self, update_of_ne hfd] at hcached
      exact h.agrees q fd₁ file₁ hq hpath₁ hfile₁ type₁ hdr₁ hcached
  · simp only [update_of_ne htype] at hcached
    exact h.agrees q fd₁ file₁ hq hpath₁ hfile₁ type₁ hdr₁ hcached

end Inv

/-- The record was skipped, or it was applied by the header that the file of its table has. -/
def RightLayout (isTable : String → Bool) (s : RedoState) (log : RowLog)
    (writes : List (Nat × Nat)) : Prop :=
  writes = [] ∧ (isTable log.table = false ∨ s.disk.path2fd log.table = none) ∨
    ∃ fd file, s.disk.path2fd log.table = some fd ∧ s.disk.fds fd = some file ∧
      log.slotNo < (s.hdrOf file).numRecordsPerPage ∧ writes = log.writes (s.hdrOf file)

/-- The record is of a row of the table that has its name now, and the rows of that table lie inside
their pages. -/
def Fits (s : RedoState) (log : RowLog) : Prop :=
  ∀ fd file, s.disk.path2fd log.table = some fd → s.disk.fds fd = some file →
    log.OfTable (s.hdrOf file) ∧ (s.hdrOf file).SlotsInside

theorem Inv.applySingleLog {log : RowLog} {writes : List (Nat × Nat)} (h : s.Inv isTable)
    (hagree : Allowed isTable s (.redo log))
    (hs : s.applySingleLog isTable log = .next (s', writes)) :
    s'.Inv isTable ∧ RightLayout isTable s' log writes := by
  unfold RedoState.applySingleLog at hs
  split at hs
  · rename_i htable
    obtain ⟨⟨disk, fd⟩, hopen, hs⟩ := bind_eq_next.1 hs
    obtain ⟨hopened, hpath⟩ := h.openFile hagree hopen
    cases fd with
    | none =>
      obtain ⟨rfl, rfl⟩ := Prod.mk.inj (next.inj hs)
      exact ⟨hopened, .inl ⟨rfl, .inr hpath⟩⟩
    | some fd =>
      obtain ⟨⟨s₁, hdr⟩, hfetch, hs⟩ := bind_eq_next.1 hs
      obtain ⟨_, hslot, hs⟩ := bind_eq_next.1 hs
      obtain ⟨_, -, hs⟩ := bind_eq_next.1 hs
      obtain ⟨s₂, hchange, hs⟩ := bind_eq_next.1 hs
      obtain ⟨rfl, rfl⟩ := Prod.mk.inj (next.inj hs)
      obtain ⟨hfetched, hdisk, file, hfile, hlayout⟩ := hopened.fetchHdr htable hpath hfetch
      obtain ⟨hchanged, hpath', hfds, hsame⟩ := hfetched.changePage (by intro; rfl) hchange
      have hhdr : hdr.layout = (s₂.hdrOf file).layout := by
        rw [hsame, hlayout, hdrOf, hdrOf, hdisk]
      refine ⟨hchanged, .inr ⟨fd, file, ?_, ?_, ?_, RowLog.writes_congr hhdr⟩⟩
      · rw [hpath', hdisk, hpath]
      · rw [hfds, hdisk, hfile]
      · show log.slotNo < (s₂.hdrOf file).layout.numRecordsPerPage
        rw [← hhdr]
        exact cassert_eq_next.1 hslot
  · rename_i htable
    obtain ⟨rfl, rfl⟩ := Prod.mk.inj (next.inj hs)
    exact ⟨h, .inl ⟨rfl, .inl (Bool.eq_false_iff.2 htable)⟩⟩

theorem Inv.step {action : RedoAction} (h : s.Inv isTable) (hallowed : Allowed isTable s action)
    (hs : s.step isTable action = .next s') : s'.Inv isTable := by
  cases action with
  | createFile path hdr => exact h.createFile hallowed hs
  | createPage fd pageNo => exact h.createPage hs
  | openFile path =>
    obtain ⟨⟨disk, fd⟩, hopen, hs⟩ := bind_eq_next.1 hs
    obtain rfl := next.inj hs
    exact (h.openFile hallowed hopen).1
  | closeFile fd =>
    obtain ⟨disk, hclose, hs⟩ := bind_eq_next.1 hs
    obtain rfl := next.inj hs
    exact h.closeFile hclose
  | destroyFile path =>
    obtain ⟨disk, hdestroy, hs⟩ := bind_eq_next.1 hs
    obtain rfl := next.inj hs
    exact h.destroyFile hdestroy
  | redo log =>
    obtain ⟨⟨s₁, writes⟩, happly, hs⟩ := bind_eq_next.1 hs
    obtain rfl := next.inj hs
    exact (h.applySingleLog hallowed happly).1

/-- If descriptors are handed out again only to tables of the same layout, every record is applied
by the header of the file that its table has. A record that fits that table overwrites nothing but the
row's slot and the page header. -/
theorem redo_rightLayout {disk : DiskManager HeapPage} {log : RowLog} {writes : List (Nat × Nat)}
    (hdisk : disk.WellFormed) (run : Run (step isTable) (Allowed isTable) (start disk) s)
    (hallowed : Allowed isTable s (.redo log))
    (hs : s.applySingleLog isTable log = .next (s', writes)) :
    RightLayout isTable s' log writes ∧ (s'.Fits log → ∀ w ∈ writes, ∃ fd file,
      s'.disk.path2fd log.table = some fd ∧ s'.disk.fds fd = some file ∧
        log.WritesSlot (s'.hdrOf file) w) := by
  have hinv : s.Inv isTable := run.invariant (Inv.start hdisk) Inv.step
  have hright := (hinv.applySingleLog hallowed hs).2
  refine ⟨hright, fun hfits w hw => ?_⟩
  obtain ⟨rfl, -⟩ | ⟨fd, file, hpath, hfile, hslot, rfl⟩ := hright
  · cases hw
  · obtain ⟨hrow, hinside⟩ := hfits fd file hpath hfile
    exact ⟨fd, file, hpath, hfile, RowLog.writes_slot hrow hinside hslot w hw⟩

/-- The headers of a table with a key only and of one with a string of 100 bytes besides. -/
def keyHdr : RmFileHdr := ⟨72, 1, 50, 7⟩
/-- The header of a table with a string of 100 bytes. -/
def stringHdr : RmFileHdr := ⟨172, 1, 22, 3⟩

/-- The server starts with table `a`, which has a page of rows. -/
def oneTable : DiskManager HeapPage where
  maxFd := 8
  fds _ := none
  directory path := if path = "a" then some 0 else none
  files _ := (DiskFile.empty.write 0 ⟨keyHdr, 0⟩).write 1 0
  created := 1
  path2fd _ := none
  fd2path _ := none
  fd2pageno _ := 0

theorem oneTable_wellFormed : oneTable.WellFormed where
  of_fd _ _ h := nomatch h
  of_path _ _ h := nomatch h
  one_path path path' file h h' := by
    simp only [oneTable, Option.ite_none_right_eq_some] at h h'
    rw [h.1, h'.1]
  is_created path file h := by
    simp only [oneTable, Option.ite_none_right_eq_some, Option.some.injEq] at h ⊢
    omega

/-- The first update of the second row of a table. -/
def secondRow (table : String) (hdr : RmFileHdr) : RowLog :=
  ⟨.update, table, 1, 1, hdr.recordSize, 1, 0, by decide⟩

/-- The update of a row after a restart goes to the slot of that row. -/
theorem redo_rightLayout_restart : ∃ s', (start oneTable).applySingleLog (fun _ => true)
    (secondRow "a" keyHdr) = .next (s', [(111, 80), (0, 24)]) ∧
      RightLayout (fun _ => true) s' (secondRow "a" keyHdr) [(111, 80), (0, 24)] ∧
      (secondRow "a" keyHdr).WritesSlot keyHdr (111, 80) := by
  obtain ⟨s', hs, hpath, hfile, hhdr⟩ : ∃ s', (start oneTable).applySingleLog (fun _ => true)
      (secondRow "a" keyHdr) = .next (s', [(111, 80), (0, 24)]) ∧ s'.disk.path2fd "a" = some 3 ∧
        s'.disk.fds 3 = some 0 ∧ s'.hdrOf 0 = keyHdr := ⟨_, rfl, rfl, rfl, rfl⟩
  obtain ⟨hright, hslot⟩ := redo_rightLayout oneTable_wellFormed .start
    (fun _ _ _ _ _ _ _ _ hcached => nomatch hcached) hs
  have hfits : s'.Fits (secondRow "a" keyHdr) := by
    intro fd file hfd hfds
    obtain rfl := Option.some.inj (hpath.symm.trans hfd)
    obtain rfl := Option.some.inj (hfile.symm.trans hfds)
    rw [hhdr]
    exact ⟨⟨le_rfl, fun _ => rfl⟩,
      RmFileHdr.slotsInside_of_room (by decide) (by decide) (by decide)⟩
  obtain ⟨fd, file, hfd, hfds, hwrites⟩ := hslot hfits (111, 80) (by simp)
  obtain rfl := Option.some.inj (hpath.symm.trans hfd)
  obtain rfl := Option.some.inj (hfile.symm.trans hfds)
  exact ⟨s', hs, hright, hhdr ▸ hwrites⟩

/-- A row of `a` is updated, `a` is dropped, and `b` with longer rows is created. The update of the
second row of `b` goes by the header of `a`: it begins in the middle of the first row. -/
theorem redo_staleLayout :
    createTable [⟨"id", .itemkey, 4⟩] = some keyHdr ∧
    createTable [⟨"id", .itemkey, 4⟩, ⟨"name", .string, 100⟩] = some stringHdr ∧
    stringHdr.tuple 0 = 27 ∧ stringHdr.tuple 1 = 207 ∧
    ∃ s s', Run (step fun _ => true) (fun _ _ => True) (start oneTable) s ∧
      s.applySingleLog (fun _ => true) (secondRow "b" stringHdr) =
        .next (s', [(111, 180), (0, 24)]) ∧
      ¬ RightLayout (fun _ => true) s' (secondRow "b" stringHdr) [(111, 180), (0, 24)] := by
  refine ⟨rfl, rfl, rfl, rfl, ?_⟩
  obtain ⟨s, run, hs⟩ := Run.of_reaches (step fun _ => true) (fun _ _ => True)
    [.redo (secondRow "a" keyHdr), .closeFile 3, .destroyFile "a", .createFile "b" stringHdr,
      .createPage 3 1] (start oneTable)
    (fun s => (s.applySingleLog (fun _ => true) (secondRow "b" stringHdr)).completes fun r =>
      decide (r.2 = [(111, 180), (0, 24)] ∧ r.1.disk.path2fd "b" = some 3 ∧
        r.1.disk.fds 3 = some 1 ∧ (r.1.hdrOf 1).tuple 1 = 207)) (by decide +kernel)
  obtain ⟨⟨s', writes⟩, hredo, hr⟩ := of_completes hs
  obtain ⟨rfl, hpath, hfile, htuple⟩ := of_decide_eq_true hr
  refine ⟨s, s', run, hredo, ?_⟩
  rintro (⟨hnil, -⟩ | ⟨fd, file, hpath', hfile', -, hwrites⟩)
  · cases hnil
  · obtain rfl := Option.some.inj (hpath.symm.trans hpath')
    obtain rfl := Option.some.inj (hfile.symm.trans hfile')
    simp [RowLog.writes, secondRow, htuple] at hwrites

end RedoState

end HeapLayout
