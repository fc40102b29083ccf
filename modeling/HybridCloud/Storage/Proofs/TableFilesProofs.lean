import HybridCloud.Storage.TableFiles
import HybridCloud.Storage.Proofs.PoolRuns

/-!
# The pages of the pool belong to the files of their descriptors

`create_table`, `drop_table` and `open_db` are runs of single calls of the disk manager and of the
pool. None of them takes the pages of a file out of the pool before the file is closed, so a
descriptor that is used again finds the pages of the file that had it before.
-/

namespace StoragePool

open Outcome

variable {γ : Type} [Zero γ]

namespace StorageBufferPoolManager

variable {s s' : StorageBufferPoolManager γ}

/-- Any number of calls. -/
abbrev Steps (s s' : StorageBufferPoolManager γ) : Prop := Run step (fun _ _ => True) s s'

theorem Steps.single {a : Action γ} (h : s.step a = .next s') : Steps s s' :=
  Run.start.step trivial h

theorem steps_onDisk {call : DiskManager γ → Outcome (DiskManager γ)} {a : Action γ}
    (ha : ∀ s : StorageBufferPoolManager γ, s.step a = s.onDisk call)
    (h : s.onDisk call = .next s') : Steps s s' := Steps.single ((ha s).trans h)

variable {fd : Nat}

theorem closeFd_steps (h : s.closeFd fd = .next s') : Steps s s' :=
  steps_onDisk (a := .closeFile fd) (fun _ => rfl) h

variable {path : String}

theorem destroyFile_steps (h : s.onDisk (fun d => d.destroyFile path) = .next s') : Steps s s' :=
  steps_onDisk (a := .destroyFile path) (fun _ => rfl) h

theorem destroyIfFile_steps (h : s.destroyIfFile path = .next s') : Steps s s' := by
  unfold destroyIfFile at h
  split at h
  · exact destroyFile_steps h
  · cases h
    exact .start

theorem createFile_steps (h : s.createFile path = .next s') : Steps s s' :=
  Steps.single (a := .createFile path) h

theorem openFd_steps (h : s.openFd path = .next (s', fd)) : Steps s s' := by
  obtain ⟨⟨s₁, fd'⟩, hs₁, h⟩ := bind_eq_next.1 h
  have hstep : s.step (.openFile path) = .next s₁ := by simp [step, hs₁]
  cases fd' with
  | none => cases h
  | some fd' =>
    cases h
    exact Steps.single hstep

theorem setFd2pageno_steps (s : StorageBufferPoolManager γ) (fd startPageNo : Nat) :
    Steps s { s with disk := s.disk.setFd2pageno fd startPageNo } :=
  Steps.single (a := .setFd2pageno fd startPageNo) rfl

theorem writeDisk_steps {pageNo : Nat} {data : γ} (h : s.writeDisk fd pageNo data = .next s') :
    Steps s s' := Steps.single (a := .writeDisk fd pageNo data) h

theorem writePages_steps {pageNo : Nat} {datas : List γ}
    (h : writePages fd pageNo datas s = .next s') : Steps s s' := by
  induction datas generalizing s pageNo with
  | nil =>
    cases h
    exact .start
  | cons data rest ih =>
    obtain ⟨s₁, hs₁, h⟩ := bind_eq_next.1 h
    exact (writeDisk_steps hs₁).trans (ih h)

theorem rmCreateFile_steps {page0 : γ} (h : s.rmCreateFile path page0 = .next s') : Steps s s' := by
  obtain ⟨s₁, hs₁, h⟩ := bind_eq_next.1 h
  obtain ⟨s₂, hs₂, h⟩ := bind_eq_next.1 h
  obtain ⟨⟨s₃, fd⟩, hs₃, h⟩ := bind_eq_next.1 h
  obtain ⟨s₄, hs₄, h⟩ := bind_eq_next.1 h
  exact (destroyIfFile_steps hs₁).trans ((createFile_steps hs₂).trans
    ((openFd_steps hs₃).trans ((writeDisk_steps hs₄).trans (closeFd_steps h))))

variable {image : TableImage γ} {table : String}

theorem createIndex_steps (h : s.createIndex table image = .next (s', fd)) : Steps s s' := by
  obtain ⟨s₁, hs₁, h⟩ := bind_eq_next.1 h
  obtain ⟨s₂, hs₂, h⟩ := bind_eq_next.1 h
  obtain ⟨⟨s₃, fd⟩, hs₃, h⟩ := bind_eq_next.1 h
  obtain ⟨s₄, hs₄, h⟩ := bind_eq_next.1 h
  cases h
  exact (destroyIfFile_steps hs₁).trans ((createFile_steps hs₂).trans
    ((openFd_steps hs₃).trans ((writePages_steps hs₄).trans (setFd2pageno_steps s₄ fd 3))))

theorem createFsm_steps (h : s.createFsm table image = .next s') : Steps s s' := by
  obtain ⟨s₁, hs₁, h⟩ := bind_eq_next.1 h
  obtain ⟨⟨s₂, fd⟩, hs₂, h⟩ := bind_eq_next.1 h
  obtain ⟨s₃, hs₃, h⟩ := bind_eq_next.1 h
  obtain ⟨s₄, hs₄, h⟩ := bind_eq_next.1 h
  exact (rmCreateFile_steps hs₁).trans ((openFd_steps hs₂).trans
    ((writeDisk_steps hs₃).trans ((writePages_steps hs₄).trans (closeFd_steps h))))

variable {primaryKey : Bool}

theorem createPrimary_steps (h : s.createPrimary table primaryKey image = .next s') :
    Steps s s' := by
  unfold createPrimary at h
  split at h
  · obtain ⟨⟨s₁, fd⟩, hs₁, h⟩ := bind_eq_next.1 h
    cases h
    exact createIndex_steps hs₁
  · cases h
    exact .start

theorem createTable_steps (h : s.createTable table primaryKey image = .next s') : Steps s s' := by
  obtain ⟨s₁, hs₁, h⟩ := bind_eq_next.1 h
  obtain ⟨⟨s₂, fd⟩, hs₂, h⟩ := bind_eq_next.1 h
  obtain ⟨s₃, hs₃, h⟩ := bind_eq_next.1 h
  obtain ⟨s₄, hs₄, h⟩ := bind_eq_next.1 h
  obtain ⟨⟨s₅, fd'⟩, hs₅, h⟩ := bind_eq_next.1 h
  obtain ⟨s₆, hs₆, h⟩ := bind_eq_next.1 h
  exact (rmCreateFile_steps hs₁).trans ((openFd_steps hs₂).trans ((writeDisk_steps hs₃).trans
    ((closeFd_steps hs₄).trans ((openFd_steps hs₅).trans ((setFd2pageno_steps s₅ fd' 1).trans
      ((createPrimary_steps hs₆).trans (createFsm_steps h)))))))

theorem dropFile_steps (h : s.dropFile path = .next s') : Steps s s' := by
  obtain ⟨⟨s₁, fd⟩, hs₁, h⟩ := bind_eq_next.1 h
  obtain ⟨s₂, hs₂, h⟩ := bind_eq_next.1 h
  exact (openFd_steps hs₁).trans ((closeFd_steps hs₂).trans (destroyFile_steps h))

theorem dropTable_steps (h : s.dropTable table primaryKey fd = .next s') : Steps s s' := by
  obtain ⟨s₁, hs₁, h⟩ := bind_eq_next.1 h
  obtain ⟨s₂, hs₂, h⟩ := bind_eq_next.1 h
  obtain ⟨s₃, hs₃, h⟩ := bind_eq_next.1 h
  have hfront : Steps s s₃ :=
    (closeFd_steps hs₁).trans ((destroyFile_steps hs₂).trans (dropFile_steps hs₃))
  split at h
  · exact hfront.trans (dropFile_steps h)
  · cases h
    exact hfront

variable {index : Option Nat}

theorem openIndex_steps (h : s.openIndex table primaryKey image = .next (s', index)) :
    Steps s s' := by
  unfold openIndex at h
  split at h
  · obtain ⟨⟨s₁, fd⟩, hs₁, h⟩ := bind_eq_next.1 h
    cases h
    exact createIndex_steps hs₁
  · cases h
    exact .start

theorem closeIndex_steps (h : s.closeIndex index image = .next s') : Steps s s' := by
  cases index with
  | none =>
    cases h
    exact .start
  | some fd =>
    obtain ⟨s₁, hs₁, h⟩ := bind_eq_next.1 h
    obtain ⟨s₂, hs₂, h⟩ := bind_eq_next.1 h
    exact (writeDisk_steps hs₁).trans
      ((Steps.single (a := .flushFilePages fd) hs₂).trans (closeFd_steps h))

theorem openTable_steps {numPages : Nat} {scan : Nat → Option Nat → List (Action γ)}
    (h : s.openTable table primaryKey image numPages scan = .next s') : Steps s s' := by
  obtain ⟨⟨s₁, fd⟩, hs₁, h⟩ := bind_eq_next.1 h
  obtain ⟨⟨s₂, index⟩, hs₂, h⟩ := bind_eq_next.1 h
  obtain ⟨s₃, hs₃, h⟩ := bind_eq_next.1 h
  obtain ⟨s₄, hs₄, h⟩ := bind_eq_next.1 h
  obtain ⟨⟨s₅, fsmFd⟩, hs₅, h⟩ := bind_eq_next.1 h
  obtain ⟨s₆, hs₆, h⟩ := bind_eq_next.1 h
  obtain ⟨s₇, hs₇, h⟩ := bind_eq_next.1 h
  obtain ⟨s₈, hs₈, h⟩ := bind_eq_next.1 h
  obtain ⟨s₉, hs₉, h⟩ := bind_eq_next.1 h
  obtain ⟨s₁₀, hs₁₀, h⟩ := bind_eq_next.1 h
  obtain ⟨⟨s₁₁, fd'⟩, hs₁₁, h⟩ := bind_eq_next.1 h
  cases h
  exact (openFd_steps hs₁).trans ((setFd2pageno_steps s₁ fd numPages).trans
    ((openIndex_steps hs₂).trans ((destroyIfFile_steps hs₃).trans ((createFile_steps hs₄).trans
      ((openFd_steps hs₅).trans ((writeDisk_steps hs₆).trans ((Run.of_follow _ hs₇).trans
        ((writePages_steps hs₈).trans ((closeFd_steps hs₉).trans ((closeIndex_steps hs₁₀).trans
          (openFd_steps hs₁₁)))))))))))

variable {poolSize : Nat} {disk : DiskManager γ}

/-- In every run in which the pool has no page of a file when the file is closed: `fetch_page` returns
the contents that the page of the file of that descriptor was left with, a frame is of the file that
its descriptor names, and no frame was ever written to another file. -/
theorem pool_bound_to_file (hdisk : disk.WellFormed)
    (run : Run step ClearedBeforeClose (start poolSize disk) s) :
    (∀ pid, s.Readable pid → s.pinnedFrames < s.poolSize →
      ∃ s' f file, s.fetchPage pid = .next (s', some f) ∧ (s'.pages f).id = some pid ∧
        s.disk.fds pid.tableId = some file ∧
        (s.version file pid.pageNo).has (s'.pages f).data) ∧
    (∀ f < s.poolSize, ∀ pid, (s.pages f).id = some pid →
      (s.pages f).file ≠ none ∧ s.disk.fds pid.tableId = (s.pages f).file) ∧
    s.strayWrites = 0 := by
  have hco := run_coherent hdisk run
  refine ⟨?_, ?_, hco.contents.no_strays⟩
  · intro pid hr hpins
    obtain ⟨s', f, v, hs', hid, hver, hhas⟩ := hco.fetchPage hr hpins
    obtain ⟨file, hfile, hv⟩ := Option.map_eq_some_iff.1 hver
    exact ⟨s', f, file, hs', hid, hfile, hv ▸ hhas⟩
  · intro f hf pid hid
    obtain ⟨file, hfile, hown⟩ := hco.contents.owned f hf pid hid
    rw [hown]
    exact ⟨Option.some_ne_none file, hfile⟩

/-- The file is cleared before it is closed, and its descriptor goes to another file. -/
theorem pool_bound_to_file_cleared : ∃ s : StorageBufferPoolManager Nat,
    Run step ClearedBeforeClose (start 1 oneFile) s ∧ s.disk.fds 3 = some 1 ∧
      ∃ s' f file, s.fetchPage ⟨3, 0⟩ = .next (s', some f) ∧ (s'.pages f).id = some ⟨3, 0⟩ ∧
        s.disk.fds 3 = some file ∧ (s.version file 0).has (s'.pages f).data := by
  obtain ⟨s, run, hs⟩ := Run.of_reaches step ClearedBeforeClose
    [.fetchPage ⟨3, 0⟩, .writeData ⟨3, 0⟩ 9, .unpinPage ⟨3, 0⟩ true, .clearFilePages 3,
      .closeFile 3, .createFile "u", .writeDisk 3 0 5] (start 1 oneFile)
    (fun s => decide (s.disk.fds 3 = some 1 ∧ s.Readable ⟨3, 0⟩ ∧ s.pinnedFrames < s.poolSize))
    (by decide +kernel)
  obtain ⟨hfd, hr, hpins⟩ := of_decide_eq_true hs
  exact ⟨s, run, hfd, (pool_bound_to_file oneFile_wellFormed run).1 _ hr hpins⟩

/-- No file, and nothing open. -/
def noFiles : DiskManager Nat where
  maxFd := 8
  fds _ := none
  directory _ := none
  files _ := DiskFile.empty
  created := 0
  path2fd _ := none
  fd2path _ := none
  fd2pageno _ := 0

/-- Table `a` is created, page 0 of its heap file is fetched, changed and unpinned; `a` is dropped,
and table `b` is created. -/
def dropAndCreate : Outcome (StorageBufferPoolManager Nat) := do
  let s ← (start 1 noFiles).createTable "a" false ⟨1, 0, 0, 0, 0, []⟩
  let s ← follow step (fun _ _ => True)
    [.fetchPage ⟨3, 0⟩, .writeData ⟨3, 0⟩ 9, .unpinPage ⟨3, 0⟩ true] s
  let s ← s.dropTable "a" false 3
  s.createTable "b" false ⟨2, 0, 0, 0, 0, []⟩

theorem dropAndCreate_steps {s : StorageBufferPoolManager Nat} (h : dropAndCreate = .next s) :
    Steps (start 1 noFiles) s := by
  obtain ⟨s₁, hs₁, h⟩ := bind_eq_next.1 h
  obtain ⟨s₂, hs₂, h⟩ := bind_eq_next.1 h
  obtain ⟨s₃, hs₃, h⟩ := bind_eq_next.1 h
  exact (createTable_steps hs₁).trans
    ((Run.of_follow _ hs₂).trans ((dropTable_steps hs₃).trans (createTable_steps h)))

/-- The heap file of `b` has the descriptor that the one of `a` had. `fetch_page` returns the page of
`a` for it, and the next flush writes that page to the file of `b`. -/
theorem reused_descriptor : ∃ s : StorageBufferPoolManager Nat,
    Steps (start 1 noFiles) s ∧ s.disk.path2fd "b" = some 3 ∧
    (∃ r, s.fetchPage ⟨3, 0⟩ = .next r ∧ r.2 = some 0 ∧ (r.1.pages 0).data = 9) ∧
    (s.versionOf ⟨3, 0⟩).map (fun v => decide (v.has 9)) = some false ∧
    ∃ s', s.flushAllPages = .next s' ∧ s'.strayWrites = 1 := by
  obtain ⟨s, hs, htest⟩ := of_completes (x := dropAndCreate)
    (P := fun s => decide (s.disk.path2fd "b" = some 3) &&
      ((s.fetchPage ⟨3, 0⟩).completes fun r => decide (r.2 = some 0 ∧ (r.1.pages 0).data = 9)) &&
      decide ((s.versionOf ⟨3, 0⟩).map (fun v => decide (v.has 9)) = some false) &&
      s.flushAllPages.completes fun s' => decide (s'.strayWrites = 1)) (by decide +kernel)
  simp only [Bool.and_eq_true, decide_eq_true_eq] at htest
  obtain ⟨⟨⟨hfd, hfetch⟩, hversion⟩, hflush⟩ := htest
  obtain ⟨r, hr, hdata⟩ := of_completes hfetch
  obtain ⟨s', hs', hstray⟩ := of_completes hflush
  exact ⟨s, dropAndCreate_steps hs, hfd, ⟨r, hr, of_decide_eq_true hdata⟩, hversion, s', hs',
    of_decide_eq_true hstray⟩

end StorageBufferPoolManager

end StoragePool
