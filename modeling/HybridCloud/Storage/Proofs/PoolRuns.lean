import HybridCloud.Storage.Proofs.PoolOperations

/-!
# Runs of the buffer pool

Every operation of the pool keeps the invariant, and so do the calls of the disk manager as long as a
file is closed only when the pool has no page of it.
-/

namespace StoragePool

open Outcome Function

variable {γ : Type} [Zero γ]

namespace StorageBufferPoolManager

variable {s s' : StorageBufferPoolManager γ}

theorem Performs.coherent (p : Performs s s') (h : s.Coherent) : s'.Coherent := by
  obtain ⟨s₁, hmoves, hre⟩ := p
  exact hre.coherent (Moves.coherent hmoves h)

theorem Performs.numbered (p : Performs s s') (hco : s.Coherent) (h : s.Numbered) :
    s'.Numbered := by
  obtain ⟨s₁, hmoves, hre⟩ := p
  exact hre.numbered (Moves.numbered hmoves hco h)

variable {f : Nat}

theorem Performs.ids (p : Performs s s') (hf : 0 < (s.pages f).pinCount) :
    (s'.pages f).id = (s.pages f).id := by
  obtain ⟨s₁, hmoves, hre⟩ := p
  rw [hre.ids.2 f]
  exact ((Moves.kept hmoves).2 f hf).1

variable {a : Action γ}

/-- Files that are opened as `open_file` and `create_file` do have fresh numbers for new pages. -/
theorem OnOpenFiles.cleared (hco : s.Coherent) (hn : s.Numbered) (ha : s.OnOpenFiles a) :
    s.ClearedBeforeClose a := by
  cases a with
  | newPage tableId =>
    refine ⟨ha, ?_⟩
    cases hp : s.pageTable { tableId := tableId, pageNo := s.disk.fd2pageno tableId } with
    | none => rfl
    | some f =>
      obtain ⟨hf, hid⟩ := (hco.placement.table _ f).1 hp
      exact absurd (hn.cached f hf _ hid) (Nat.lt_irrefl _)
  | fetchPage pid => exact ha
  | clearFilePages fd => exact ha
  | closeFile fd => exact ha.elim
  | writeDisk fd pageNo data => exact ha.elim
  | _ => trivial

/-- Is it an operation of the pool, or a call of the disk manager? -/
def Action.onPool : Action γ → Bool
  | .createFile _ | .openFile _ | .closeFile _ | .destroyFile _ | .setFd2pageno ..
  | .writeDisk .. => false
  | _ => true

theorem OnOpenFiles.onPool (ha : s.OnOpenFiles a) : a.onPool = true := by
  cases a <;> first | rfl | exact ha.elim

theorem step_performs (h : s.Coherent) (hpool : a.onPool = true) (ha : s.ClearedBeforeClose a)
    (hs : s.step a = .next s') : Performs s s' := by
  cases a with
  | fetchPage pid =>
    obtain ⟨⟨s₁, r⟩, hs₁, heq⟩ := bind_eq_next.1 hs
    cases heq
    exact fetchPage_performs h ha hs₁
  | unpinPage pid isDirty =>
    cases hs
    exact unpinPage_performs h pid isDirty
  | writeData pid data => exact writeData_performs h hs
  | newPage tableId =>
    obtain ⟨⟨s₁, r⟩, hs₁, heq⟩ := bind_eq_next.1 hs
    cases heq
    exact newPage_performs h ha.1 ha.2 hs₁
  | deletePage pid =>
    obtain ⟨⟨s₁, r⟩, hs₁, heq⟩ := bind_eq_next.1 hs
    cases heq
    exact deletePage_performs h hs₁
  | flushPage pid =>
    obtain ⟨⟨s₁, r⟩, hs₁, heq⟩ := bind_eq_next.1 hs
    cases heq
    exact flushPage_performs h hs₁
  | flushFilePages fd | flushAllPages =>
    exact (flushPages_moves h (fun f hf => List.mem_range.1 hf) hs).performs
  | clearFilePages fd =>
    exact (clearPages_moves h (fun f hf => List.mem_range.1 hf) ha hs).performs
  | createFile path => cases hpool
  | openFile path => cases hpool
  | closeFile fd => cases hpool
  | destroyFile path => cases hpool
  | setFd2pageno fd startPageNo => cases hpool
  | writeDisk fd pageNo data => cases hpool

variable {fd : Nat}

theorem Coherent.tableId_ne (h : s.Coherent) {pid : PageId} (hf : f < s.poolSize)
    (hid : (s.pages f).id = some pid) (hfd : s.disk.fds fd = none) : pid.tableId ≠ fd := by
  rintro rfl
  obtain ⟨file, hfile, -⟩ := h.contents.owned f hf pid hid
  rw [hfd] at hfile
  cases hfile

variable {path : String}

section

variable (h : s.Coherent)
include h

theorem Coherent.createFile (hs : s.createFile path = .next s') : s'.Coherent := by
  unfold StorageBufferPoolManager.createFile at hs
  simp only [bind_eq_next, pure_def, next.injEq] at hs
  obtain ⟨disk, hdisk, rfl⟩ := hs
  have hwf := h.contents.tables.createFile hdisk
  obtain ⟨fd, hfree, -, -, rfl⟩ := DiskManager.createFile_next hdisk
  have hfd := DiskManager.unusedFd_unused hfree
  refine h.withDisk hwf ?_ ?_ ?_
  · intro f hf pid hid
    exact update_of_ne (h.tableId_ne hf hid hfd) _ _
  · intro f hf pid file hid hfile
    have hne : file ≠ s.disk.created := Nat.ne_of_lt (h.contents.tables.file_created hfile)
    rw [update_of_ne hne]
  · intro file p
    by_cases hfile : file = s.disk.created
    · left
      subst hfile
      simp [DiskFile.empty, Version.has]
    · right
      simp [update_of_ne hfile]

theorem Coherent.openFile {fd : Option Nat}
    (hs : s.openFile path = .next (s', fd)) : s'.Coherent := by
  unfold StorageBufferPoolManager.openFile at hs
  simp only [bind_eq_next, pure_def, next.injEq, Prod.mk.injEq] at hs
  obtain ⟨⟨disk, fd'⟩, hdisk, rfl, -⟩ := hs
  have hwf := h.contents.tables.openFile hdisk
  obtain ⟨rfl, -⟩ | ⟨file, fd₁, hfree, -, -, -, rfl⟩ := DiskManager.openFile_next hdisk
  · exact h
  · have hfd := DiskManager.unusedFd_unused hfree
    refine h.withDisk hwf ?_ (fun _ _ _ _ _ _ => rfl) fun _ _ => .inr ⟨rfl, rfl⟩
    intro f hf pid hid
    exact update_of_ne (h.tableId_ne hf hid hfd) _ _

theorem Coherent.closeFile (hun : s.Uncached fd)
    (hs : s.onDisk (fun d => d.closeFile fd) = .next s') : s'.Coherent := by
  unfold onDisk at hs
  simp only [bind_eq_next, pure_def, next.injEq] at hs
  obtain ⟨disk, hdisk, rfl⟩ := hs
  have hwf := h.contents.tables.closeFile hdisk
  obtain ⟨path, -, -, rfl⟩ := DiskManager.closeFile_next hdisk
  refine h.withDisk hwf ?_ (fun _ _ _ _ _ _ => rfl) fun _ _ => .inr ⟨rfl, rfl⟩
  intro f hf pid hid
  have hne : pid.tableId ≠ fd := by
    have hnot := hun f hf
    simpa [Frame.ofFile, hid] using hnot
  exact update_of_ne hne _ _

theorem Coherent.destroyFile
    (hs : s.onDisk (fun d => d.destroyFile path) = .next s') : s'.Coherent := by
  unfold onDisk at hs
  simp only [bind_eq_next, pure_def, next.injEq] at hs
  obtain ⟨disk, hdisk, rfl⟩ := hs
  have hwf := h.contents.tables.destroyFile hdisk
  obtain ⟨-, rfl⟩ := DiskManager.destroyFile_next hdisk
  exact h.withDisk hwf (fun _ _ _ _ => rfl) (fun _ _ _ _ _ _ => rfl) fun _ _ => .inr ⟨rfl, rfl⟩

theorem Coherent.writeDisk {pageNo : Nat} {data : γ}
    (hnone : s.pageTable { tableId := fd, pageNo := pageNo } = none)
    (hs : s.writeDisk fd pageNo data = .next s') : s'.Coherent := by
  unfold StorageBufferPoolManager.writeDisk at hs
  cases hdisk : s.disk.writePage fd pageNo data with
  | none => simp [hdisk] at hs
  | some disk =>
    obtain ⟨file, hfile, rfl⟩ := DiskManager.writePage_some hdisk
    simp only [hdisk, pure_def, next.injEq, setVersion, hfile] at hs
    rw [← hs]
    have hother : ∀ file' p, ¬ (file' = file ∧ p = pageNo) →
        update s.version file (update (s.version file) pageNo
          { left := data, later := [] }) file' p = s.version file' p := by
      intro file' p hne
      by_cases hff : file' = file
      · subst hff
        rw [update_self, update_of_ne fun hp => hne ⟨rfl, hp⟩]
      · rw [update_of_ne hff]
    refine h.withDisk { h.contents.tables with } (fun _ _ _ _ => rfl) ?_ ?_
    · intro f hf pid file' hid hfile'
      refine hother file' pid.pageNo ?_
      rintro ⟨rfl, hp⟩
      have hfd : pid.tableId = fd := h.contents.tables.one_fd hfile' hfile
      have hpid : pid = { tableId := fd, pageNo := pageNo } := by rw [← hfd, ← hp]
      exact h.placement.not_cached hnone hf (hpid ▸ hid)
    · intro file' p
      by_cases hpage : file' = file ∧ p = pageNo
      · left
        obtain ⟨rfl, rfl⟩ := hpage
        simp [Version.has]
      · right
        refine ⟨hother file' p hpage, ?_⟩
        by_cases hff : file' = file
        · subst hff
          simp [update_of_ne fun hp => hpage ⟨rfl, hp⟩]
        · simp [update_of_ne hff]

theorem step_coherent (ha : s.ClearedBeforeClose a) (hs : s.step a = .next s') :
    s'.Coherent := by
  cases hpool : a.onPool with
  | true => exact (step_performs h hpool ha hs).coherent h
  | false =>
    cases a with
    | createFile path => exact h.createFile hs
    | openFile path =>
      obtain ⟨⟨s₁, r⟩, hs₁, heq⟩ := bind_eq_next.1 hs
      cases heq
      exact h.openFile hs₁
    | closeFile fd => exact h.closeFile ha hs
    | destroyFile path => exact h.destroyFile hs
    | setFd2pageno fd startPageNo =>
      cases hs
      exact h.withDisk { h.contents.tables with } (fun _ _ _ _ => rfl)
        (fun _ _ _ _ _ _ => rfl) fun _ _ => .inr ⟨rfl, rfl⟩
    | writeDisk fd pageNo data => exact h.writeDisk ha hs
    | _ => cases hpool

end

variable {poolSize : Nat} {disk : DiskManager γ}

theorem start_coherent (hdisk : disk.WellFormed) : (start poolSize disk).Coherent := by
  constructor
  · constructor
    · simp [start, Frame.unused]
    · exact List.nodup_range
    · exact List.nodup_nil
    · intro f hf
      exact List.mem_range.1 hf
    · simp [start]
    · intro f hf
      simpa [start, Frame.unused] using hf
    · simp [start, Frame.unused]
    · simp [start]
    · intro f hf _
      exact .inl (List.mem_range.2 hf)
    · simp [start]
  · constructor
    · exact hdisk
    · simp [start, Frame.unused]
    · simp [start, Frame.unused]
    · simp [start, Frame.unused]
    · intro file p
      exact .inl (.inl rfl)
    · rfl

theorem run_coherent (hdisk : disk.WellFormed)
    (run : Run step ClearedBeforeClose (start poolSize disk) s) : s.Coherent :=
  run.invariant (start_coherent hdisk) fun h ha hs => step_coherent h ha hs

theorem openRun_coherent (hdisk : disk.WellFormed)
    (hsize : ∀ fd file, disk.fds fd = some file → (disk.files file).size ≤ disk.fd2pageno fd)
    (run : Run step OnOpenFiles (start poolSize disk) s) : s.Coherent ∧ s.Numbered := by
  refine run.invariant (P := fun s => s.Coherent ∧ s.Numbered) ?_ ?_
  · refine ⟨start_coherent hdisk, hsize, ?_⟩
    simp [start, Frame.unused]
  · rintro s a s' ⟨hco, hn⟩ ha hs
    have hp := step_performs hco ha.onPool (ha.cleared hco hn) hs
    exact ⟨hp.coherent hco, hp.numbered hco hn⟩

/-- The number of frames that are pinned. -/
def pinnedFrames (s : StorageBufferPoolManager γ) : Nat :=
  (List.range s.poolSize).countP fun f => decide (0 < (s.pages f).pinCount)

theorem exists_unpinned (h : s.pinnedFrames < s.poolSize) :
    ∃ f < s.poolSize, (s.pages f).pinCount = 0 := by
  by_contra hall
  have hcount : s.pinnedFrames = (List.range s.poolSize).length := by
    refine List.countP_eq_length.2 ?_
    intro f hf
    have hpin : (s.pages f).pinCount ≠ 0 := fun hzero => hall ⟨f, List.mem_range.1 hf, hzero⟩
    exact decide_eq_true (Nat.pos_of_ne_zero hpin)
  rw [List.length_range] at hcount
  omega

theorem Coherent.fetchPage (h : s.Coherent) {pid : PageId} (hr : s.Readable pid)
    (hpins : s.pinnedFrames < s.poolSize) :
    ∃ s' f v, s.fetchPage pid = .next (s', some f) ∧ (s'.pages f).id = some pid ∧
      s.versionOf pid = some v ∧ v.has (s'.pages f).data := by
  cases hp : s.pageTable pid with
  | some f =>
    obtain ⟨s', hs', -, hid, hdata, -⟩ := fetchPage_hit h hp
    obtain ⟨hf, hid'⟩ := (h.placement.table pid f).1 hp
    obtain ⟨file, hfile, -⟩ := h.contents.owned f hf pid hid'
    refine ⟨s', f, s.version file pid.pageNo, hs', hid, by simp [versionOf, hfile], ?_⟩
    rw [hdata]
    exact h.contents.cached f hf pid file hid' hfile
  | none =>
    obtain ⟨f, hf, hpin⟩ := exists_unpinned hpins
    obtain ⟨g, s₁, hv⟩ := findVictimPage_of_unpinned h.placement hf hpin
    obtain ⟨s', hs', -, hid, v, hver, -, hhas⟩ :=
      fetchPage_miss h hp (hr.resolve_left fun hne => hne hp) hv
    exact ⟨s', g, v, hs', hid, hver, hhas⟩

/-- The frame is in one of three places, and in no other: pinned, on the free list, or in the
replacer. -/
def InOnePlace (s : StorageBufferPoolManager γ) (f : Nat) : Prop :=
  (0 < (s.pages f).pinCount ∧ f ∉ s.freeList ∧ f ∉ s.lruList) ∨
    ((s.pages f).pinCount = 0 ∧ f ∈ s.freeList ∧ f ∉ s.lruList) ∨
    ((s.pages f).pinCount = 0 ∧ f ∉ s.freeList ∧ f ∈ s.lruList)

instance (s : StorageBufferPoolManager γ) (f : Nat) : Decidable (s.InOnePlace f) :=
  inferInstanceAs (Decidable (_ ∨ _ ∨ _))

theorem Placement.inOnePlace_iff (h : s.Placement) (hf : f < s.poolSize) :
    s.InOnePlace f ↔ s.deleted f = false := by
  rw [← Bool.not_eq_true, h.deleted_iff f hf]
  constructor
  · rintro (⟨-, hfree, -⟩ | ⟨-, -, hlru⟩ | ⟨-, hfree, -⟩) ⟨hfree', hlru'⟩
    · exact hfree hfree'
    · exact hlru hlru'
    · exact hfree hfree'
  · intro hnot
    by_cases hpin : (s.pages f).pinCount = 0
    · rcases h.listed f hf hpin with hfree | hlru
      · exact .inr (.inl ⟨hpin, hfree, fun hlru => hnot ⟨hfree, hlru⟩⟩)
      · exact .inr (.inr ⟨hpin, fun hfree => hnot ⟨hfree, hlru⟩, hlru⟩)
    · refine .inl ⟨Nat.pos_of_ne_zero hpin, ?_, ?_⟩
      · exact fun hfree => hpin (h.free_unpinned f hfree)
      · exact fun hlru => hpin (h.lru_unpinned f hlru)

/-- In every run on open files: the page table is injective and agrees with the frames; a frame is in
exactly one place unless `delete_page` has taken its page and it was not handed out since; a pinned
frame keeps its page; and `fetch_page` returns the contents that the last dirty unpin left, unless a
user has written to the frame since then. -/
theorem pool_invariant (hdisk : disk.WellFormed)
    (hsize : ∀ fd file, disk.fds fd = some file → (disk.files file).size ≤ disk.fd2pageno fd)
    (run : Run step OnOpenFiles (start poolSize disk) s) :
    (∀ pid f, s.pageTable pid = some f → (s.pages f).id = some pid) ∧
    (∀ pid pid' f, s.pageTable pid = some f → s.pageTable pid' = some f → pid = pid') ∧
    (∀ f < s.poolSize, s.InOnePlace f ↔ s.deleted f = false) ∧
    (∀ a s', s.OnOpenFiles a → s.step a = .next s' →
      ∀ f, 0 < (s.pages f).pinCount → (s'.pages f).id = (s.pages f).id) ∧
    (∀ pid, s.Readable pid → s.pinnedFrames < s.poolSize →
      ∃ s' f v, s.fetchPage pid = .next (s', some f) ∧ (s'.pages f).id = some pid ∧
        s.versionOf pid = some v ∧ v.has (s'.pages f).data) := by
  obtain ⟨hco, hn⟩ := openRun_coherent hdisk hsize run
  have hentry : ∀ pid f, s.pageTable pid = some f → (s.pages f).id = some pid :=
    fun pid f hp => ((hco.placement.table pid f).1 hp).2
  refine ⟨hentry, ?_, ?_, ?_, ?_⟩
  · intro pid pid' f hp hp'
    have hid := hentry pid f hp
    rw [hentry pid' f hp'] at hid
    exact (Option.some.inj hid).symm
  · intro f hf
    exact hco.placement.inOnePlace_iff hf
  · intro a s' ha hs f hf
    exact (step_performs hco ha.onPool (ha.cleared hco hn) hs).ids hf
  · intro pid hr hpins
    exact hco.fetchPage hr hpins

/-- One open file with one page. -/
def oneFile : DiskManager Nat where
  maxFd := 8
  fds fd := if fd = 3 then some 0 else none
  directory path := if path = "t" then some 0 else none
  files _ := DiskFile.empty.write 0 7
  created := 1
  path2fd path := if path = "t" then some 3 else none
  fd2path fd := if fd = 3 then some "t" else none
  fd2pageno _ := 1

theorem oneFile_wellFormed : oneFile.WellFormed := by
  constructor
  · intro fd file h
    simp only [oneFile] at h ⊢
    split at h
    · rename_i hfd
      exact ⟨"t", by simp [hfd], by simp [hfd], by simpa using h⟩
    · cases h
  · intro path fd h
    simp only [oneFile] at h ⊢
    split at h
    · rename_i hpath
      cases h
      simp [hpath]
    · cases h
  · intro path path' file h h'
    simp only [oneFile] at h h'
    split at h
    · split at h'
      · rename_i hpath hpath'
        rw [hpath, hpath']
      · cases h'
    · cases h
  · intro path file h
    simp only [oneFile] at h ⊢
    split at h
    · cases h
      decide
    · cases h

theorem oneFile_size (fd file : Nat) (_ : oneFile.fds fd = some file) :
    (oneFile.files file).size ≤ oneFile.fd2pageno fd := Nat.le_refl 1

/-- The page is written and left dirty, and the only frame is given to a new page. -/
def evictDirty : List (Action Nat) :=
  [.fetchPage ⟨3, 0⟩, .writeData ⟨3, 0⟩ 9, .unpinPage ⟨3, 0⟩ true, .newPage 3,
    .unpinPage ⟨3, 1⟩ false]

/-- What was left in the page before its frame was evicted is there when it is fetched again. -/
theorem pool_invariant_evicted : ∃ s : StorageBufferPoolManager Nat,
    Run step OnOpenFiles (start 1 oneFile) s ∧ s.InOnePlace 0 ∧
      ∃ s' f v, s.fetchPage ⟨3, 0⟩ = .next (s', some f) ∧ (s'.pages f).id = some ⟨3, 0⟩ ∧
        s.versionOf ⟨3, 0⟩ = some v ∧ v.has (s'.pages f).data := by
  obtain ⟨s, run, hs⟩ := Run.of_reaches step OnOpenFiles evictDirty (start 1 oneFile)
    (fun s => s.poolSize == 1 && !s.deleted 0 && decide (s.Readable ⟨3, 0⟩) &&
      decide (s.pinnedFrames < 1)) (by decide +kernel)
  simp only [Bool.and_eq_true, beq_iff_eq, Bool.not_eq_true', decide_eq_true_eq] at hs
  obtain ⟨⟨⟨hpool, hdel⟩, hr⟩, hpins⟩ := hs
  obtain ⟨-, -, hplace, -, hfetch⟩ := pool_invariant oneFile_wellFormed oneFile_size run
  exact ⟨s, run, (hplace 0 (by omega)).2 hdel, hfetch _ hr (by omega)⟩

/-- A page is fetched, unpinned and deleted: its frame is on the free list and in the replacer. -/
theorem delete_leaves_replacer : ∃ s : StorageBufferPoolManager Nat,
    Run step OnOpenFiles (start 1 oneFile) s ∧ 0 ∈ s.freeList ∧ 0 ∈ s.lruList ∧
      ¬ s.InOnePlace 0 := by
  obtain ⟨s, run, hs⟩ := Run.of_reaches step OnOpenFiles
    [.fetchPage ⟨3, 0⟩, .unpinPage ⟨3, 0⟩ false, .deletePage ⟨3, 0⟩] (start 1 oneFile)
    (fun s => decide (0 ∈ s.freeList ∧ 0 ∈ s.lruList ∧ ¬ s.InOnePlace 0)) (by decide +kernel)
  exact ⟨s, run, of_decide_eq_true hs⟩

end StorageBufferPoolManager

end StoragePool
