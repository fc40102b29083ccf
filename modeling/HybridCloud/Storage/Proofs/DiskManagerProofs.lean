import HybridCloud.Storage.DiskManager

/-!
# The tables of the disk manager agree

A descriptor that is open has its path in `fd2path_`, and that path has the descriptor in `path2fd_`
and the file in the directory. It follows that two open descriptors are never of the same file.
-/

namespace StoragePool

open Outcome Function

variable {γ : Type} [Zero γ]

namespace DiskManager

/-- The tables of the disk manager and those of the kernel agree. -/
structure WellFormed (d : DiskManager γ) : Prop where
  of_fd : ∀ fd file, d.fds fd = some file →
    ∃ path, d.fd2path fd = some path ∧ d.path2fd path = some fd ∧ d.directory path = some file
  of_path : ∀ path fd, d.path2fd path = some fd → d.fds fd ≠ none ∧ d.fd2path fd = some path
  one_path : ∀ path path' file, d.directory path = some file → d.directory path' = some file →
    path = path'
  is_created : ∀ path file, d.directory path = some file → file < d.created

variable {fd : Nat}

theorem lowestFrom_unused {fds : Nat → Option Nat} {n start : Nat}
    (h : lowestFrom fds n start = some fd) : fds fd = none := by
  induction n generalizing start with
  | zero => cases h
  | succ n ih =>
    unfold lowestFrom at h
    split at h
    · rename_i hstart
      cases h
      exact hstart
    · exact ih h

variable {d d' : DiskManager γ}

theorem unusedFd_unused (h : d.unusedFd = some fd) : d.fds fd = none :=
  lowestFrom_unused h

variable {file : Nat}

namespace WellFormed

theorem one_fd (hd : d.WellFormed) {fd' : Nat} (h : d.fds fd = some file)
    (h' : d.fds fd' = some file) : fd = fd' := by
  obtain ⟨path, -, hpath, hdir⟩ := hd.of_fd fd file h
  obtain ⟨path', -, hpath', hdir'⟩ := hd.of_fd fd' file h'
  have heq : path = path' := hd.one_path path path' file hdir hdir'
  rw [heq, hpath'] at hpath
  exact (Option.some.inj hpath).symm

theorem file_created (hd : d.WellFormed) (h : d.fds fd = some file) : file < d.created := by
  obtain ⟨path, -, -, hdir⟩ := hd.of_fd fd file h
  exact hd.is_created path file hdir

end WellFormed

variable {path : String}

theorem createFile_next (h : d.createFile path = .next d') :
    ∃ fd, d.unusedFd = some fd ∧ d.directory path = none ∧ d.path2fd path = none ∧
      d' = { d with
        fds := update d.fds fd (some d.created)
        directory := update d.directory path (some d.created)
        files := update d.files d.created DiskFile.empty
        created := d.created + 1
        path2fd := update d.path2fd path (some fd)
        fd2path := update d.fd2path fd (some path)
        fd2pageno := update d.fd2pageno fd 0 } := by
  unfold createFile at h
  simp only [bind_eq_next, cassert_eq_next] at h
  obtain ⟨-, hfile, -, hpath, h⟩ := h
  have hdir : d.directory path = none := by simpa [isFile] using hfile
  cases hfd : d.unusedFd with
  | none => simp [hfd] at h
  | some fd =>
    simp only [hfd, pure_def, next.injEq] at h
    exact ⟨fd, rfl, hdir, hpath, h.symm⟩

theorem openFile_next {fd : Option Nat} (h : d.openFile path = .next (d', fd)) :
    d' = d ∧ fd = d.path2fd path ∨
      ∃ file fd', d.unusedFd = some fd' ∧ d.directory path = some file ∧
        d.path2fd path = none ∧ fd = some fd' ∧ d' = { d with
          fds := update d.fds fd' (some file)
          path2fd := update d.path2fd path (some fd')
          fd2path := update d.fd2path fd' (some path)
          fd2pageno := update d.fd2pageno fd' (d.files file).size } := by
  unfold openFile at h
  split at h
  · rename_i hpath
    simp only [bind_eq_next, cassert_eq_next, pure_def, next.injEq, Prod.mk.injEq] at h
    obtain ⟨-, -, heq, hfd⟩ := h
    exact .inl ⟨heq.symm, hfd.symm.trans hpath.symm⟩
  · rename_i hpath
    split at h
    · rename_i file fd' hdir hfd
      simp only [bind_eq_next, cassert_eq_next, pure_def, next.injEq, Prod.mk.injEq] at h
      obtain ⟨-, -, heq, hret⟩ := h
      exact .inr ⟨file, fd', hfd, hdir, hpath, hret.symm, heq.symm⟩
    · simp only [pure_def, next.injEq, Prod.mk.injEq] at h
      exact .inl ⟨h.1.symm, h.2.symm.trans hpath.symm⟩

theorem closeFile_next (h : d.closeFile fd = .next d') :
    ∃ path, d.fds fd ≠ none ∧ d.fd2path fd = some path ∧ d' = { d with
      fds := update d.fds fd none
      path2fd := update d.path2fd path none
      fd2path := update d.fd2path fd none
      fd2pageno := update d.fd2pageno fd 0 } := by
  unfold closeFile at h
  simp only [bind_eq_next, cassert_eq_next] at h
  obtain ⟨-, hopen, h⟩ := h
  cases hpath : d.fd2path fd with
  | none => simp [hpath] at h
  | some path =>
    simp only [hpath, pure_def, next.injEq] at h
    exact ⟨path, hopen, rfl, h.symm⟩

theorem destroyFile_next (h : d.destroyFile path = .next d') :
    d.path2fd path = none ∧
      d' = { d with directory := update d.directory path none } := by
  unfold destroyFile at h
  simp only [bind_eq_next, cassert_eq_next, pure_def, next.injEq] at h
  obtain ⟨-, -, -, hpath, heq⟩ := h
  exact ⟨hpath, heq.symm⟩

theorem writePage_of_open (h : d.fds fd = some file) (pageNo : Nat) (data : γ) :
    d.writePage fd pageNo data =
      some { d with files := update d.files file ((d.files file).write pageNo data) } := by
  unfold writePage
  rw [h]

theorem writePage_some {pageNo : Nat} {data : γ} (h : d.writePage fd pageNo data = some d') :
    ∃ file, d.fds fd = some file ∧
      d' = { d with files := update d.files file ((d.files file).write pageNo data) } := by
  unfold writePage at h
  split at h
  · cases h
  · rename_i file hfile
    exact ⟨file, hfile, (Option.some.inj h).symm⟩

theorem readPage_some {pageNo : Nat} {data : γ} (h : d.readPage fd pageNo = some data) :
    ∃ file, d.fds fd = some file ∧ pageNo < (d.files file).size ∧
      data = (d.files file).pages pageNo := by
  unfold readPage at h
  split at h
  · cases h
  · rename_i file hfile
    split at h
    · rename_i hsize
      exact ⟨file, hfile, hsize, (Option.some.inj h).symm⟩
    · cases h

namespace WellFormed

theorem createFile (hd : d.WellFormed) (h : d.createFile path = .next d') : d'.WellFormed := by
  obtain ⟨fd, hfree, hdir, hpath, rfl⟩ := createFile_next h
  have hfd : d.fds fd = none := unusedFd_unused hfree
  have hfresh : ∀ q, d.directory q ≠ some d.created := by
    intro q hq
    exact Nat.lt_irrefl _ (hd.is_created q _ hq)
  constructor
  · intro fd' file hfile
    by_cases hfd' : fd' = fd
    · subst hfd'
      simp only [update_self, Option.some.injEq] at hfile ⊢
      exact ⟨path, rfl, update_self .., by rw [update_self, hfile]⟩
    · simp only [update_of_ne hfd'] at hfile ⊢
      obtain ⟨q, hq, hq', hqdir⟩ := hd.of_fd fd' file hfile
      have hne : q ≠ path := by
        rintro rfl
        rw [hdir] at hqdir
        cases hqdir
      exact ⟨q, hq, by rwa [update_of_ne hne], by rwa [update_of_ne hne]⟩
  · intro q fd' hq
    by_cases hqp : q = path
    · subst hqp
      simp only [update_self, Option.some.injEq] at hq
      subst hq
      simp
    · simp only [update_of_ne hqp] at hq
      obtain ⟨hopen, hback⟩ := hd.of_path q fd' hq
      have hne : fd' ≠ fd := by
        rintro rfl
        exact hopen hfd
      simp only [update_of_ne hne]
      exact ⟨hopen, hback⟩
  · intro q q' file hq hq'
    by_cases hqp : q = path <;> by_cases hqp' : q' = path
    · rw [hqp, hqp']
    · subst hqp
      simp only [update_self, Option.some.injEq, update_of_ne hqp'] at hq hq'
      exact absurd (hq ▸ hq') (hfresh q')
    · subst hqp'
      simp only [update_self, Option.some.injEq, update_of_ne hqp] at hq hq'
      exact absurd (hq' ▸ hq) (hfresh q)
    · simp only [update_of_ne hqp, update_of_ne hqp'] at hq hq'
      exact hd.one_path q q' file hq hq'
  · intro q file hq
    by_cases hqp : q = path
    · subst hqp
      simp only [update_self, Option.some.injEq] at hq
      show file < d.created + 1
      omega
    · simp only [update_of_ne hqp] at hq
      exact Nat.lt_succ_of_lt (hd.is_created q file hq)

theorem openFile (hd : d.WellFormed) {fd : Option Nat} (h : d.openFile path = .next (d', fd)) :
    d'.WellFormed := by
  obtain ⟨rfl, -⟩ | ⟨file, fd', hfree, hdir, hpath, -, rfl⟩ := openFile_next h
  · exact hd
  have hfd : d.fds fd' = none := unusedFd_unused hfree
  constructor
  · intro fd₁ file₁ hfile
    by_cases hfd₁ : fd₁ = fd'
    · subst hfd₁
      simp only [update_self, Option.some.injEq] at hfile ⊢
      exact ⟨path, rfl, update_self .., hfile ▸ hdir⟩
    · simp only [update_of_ne hfd₁] at hfile ⊢
      obtain ⟨q, hq, hq', hqdir⟩ := hd.of_fd fd₁ file₁ hfile
      have hne : q ≠ path := by
        rintro rfl
        rw [hpath] at hq'
        cases hq'
      exact ⟨q, hq, by rwa [update_of_ne hne], hqdir⟩
  · intro q fd₁ hq
    by_cases hqp : q = path
    · subst hqp
      simp only [update_self, Option.some.injEq] at hq
      subst hq
      simp
    · simp only [update_of_ne hqp] at hq
      obtain ⟨hopen, hback⟩ := hd.of_path q fd₁ hq
      have hne : fd₁ ≠ fd' := by
        rintro rfl
        exact hopen hfd
      simp only [update_of_ne hne]
      exact ⟨hopen, hback⟩
  · exact hd.one_path
  · exact hd.is_created

theorem closeFile (hd : d.WellFormed) (h : d.closeFile fd = .next d') : d'.WellFormed := by
  obtain ⟨path, hopen, hpath, rfl⟩ := closeFile_next h
  have hback : d.path2fd path = some fd := by
    obtain ⟨file, hfile⟩ := Option.ne_none_iff_exists'.1 hopen
    obtain ⟨q, hq, hq', -⟩ := hd.of_fd fd file hfile
    rw [hpath] at hq
    rwa [Option.some.inj hq]
  constructor
  · intro fd₁ file hfile
    have hne : fd₁ ≠ fd := by
      rintro rfl
      simp at hfile
    simp only [update_of_ne hne] at hfile ⊢
    obtain ⟨q, hq, hq', hqdir⟩ := hd.of_fd fd₁ file hfile
    have hqne : q ≠ path := by
      rintro rfl
      rw [hback] at hq'
      exact hne (Option.some.inj hq').symm
    exact ⟨q, hq, by rwa [update_of_ne hqne], hqdir⟩
  · intro q fd₁ hq
    have hqne : q ≠ path := by
      rintro rfl
      simp at hq
    simp only [update_of_ne hqne] at hq
    obtain ⟨hopen₁, hfd₁⟩ := hd.of_path q fd₁ hq
    have hne : fd₁ ≠ fd := by
      rintro rfl
      rw [hpath] at hfd₁
      exact hqne (Option.some.inj hfd₁).symm
    simp only [update_of_ne hne]
    exact ⟨hopen₁, hfd₁⟩
  · exact hd.one_path
  · exact hd.is_created

theorem destroyFile (hd : d.WellFormed) (h : d.destroyFile path = .next d') : d'.WellFormed := by
  obtain ⟨hpath, rfl⟩ := destroyFile_next h
  have hkept : ∀ q file, update d.directory path none q = some file →
      d.directory q = some file := by
    intro q file hq
    have hne : q ≠ path := by
      rintro rfl
      simp at hq
    rwa [update_of_ne hne] at hq
  constructor
  · intro fd file hfile
    obtain ⟨q, hq, hq', hqdir⟩ := hd.of_fd fd file hfile
    have hne : q ≠ path := by
      rintro rfl
      rw [hpath] at hq'
      cases hq'
    exact ⟨q, hq, hq', by simpa [update_of_ne hne] using hqdir⟩
  · exact hd.of_path
  · intro q q' file hq hq'
    exact hd.one_path q q' file (hkept q file hq) (hkept q' file hq')
  · intro q file hq
    exact hd.is_created q file (hkept q file hq)

end WellFormed

end DiskManager

end StoragePool
