import HybridCloud.Storage.Proofs.PoolInvariant

/-!
# What an operation of the buffer pool is made of

Every operation of the pool is a sequence of the changes in `Move`, after which the pin count of one
page may change, so that an invariant is checked once for each change.
-/

namespace StoragePool

open Outcome Function

variable {γ : Type} [Zero γ]

namespace StorageBufferPoolManager

/-- The changes that operations of the pool are made of. -/
inductive Move : StorageBufferPoolManager γ → StorageBufferPoolManager γ → Prop where
  | write {s f pid file} (hf : f < s.poolSize) (hid : (s.pages f).id = some pid)
      (hfile : s.disk.fds pid.tableId = some file) : Move s (s.written f file pid)
  | assign {s f pid file data} (hf : f < s.poolSize) (hpin : (s.pages f).pinCount = 0)
      (hclean : (s.pages f).isDirty = false) (hnone : s.pageTable pid = none)
      (hfile : s.disk.fds pid.tableId = some file) (hhas : (s.version file pid.pageNo).has data)
      (hnum : pid.pageNo < (s.disk.files file).size ∨ pid.pageNo < s.disk.fd2pageno pid.tableId) :
      Move s (s.assign f pid data)
  | release {s f pid lruList isDeleted} (hf : f < s.poolSize) (hid : (s.pages f).id = some pid)
      (hpin : (s.pages f).pinCount = 0) (hclean : (s.pages f).isDirty = false)
      (hlru : lruList.Nodup) (hothers : ∀ g, g ≠ f → (g ∈ lruList ↔ g ∈ s.lruList))
      (hdel : f ∈ lruList ↔ isDeleted = true) : Move s (s.release f lruList isDeleted)
  | allocate {s fd} : Move s { s with disk := (s.disk.allocatePage fd).1 }
  | extend (s : StorageBufferPoolManager γ) (file p : Nat) (data : γ) :
      Move s (s.extended file p data)
  | overwrite {s f pid file data} (hid : (s.pages f).id = some pid)
      (hfile : s.disk.fds pid.tableId = some file) (hhas : (s.version file pid.pageNo).has data) :
      Move s { s with pages := update s.pages f { s.pages f with data := data } }
  | leave {s f pid file} (hf : f < s.poolSize) (hid : (s.pages f).id = some pid)
      (hfile : s.disk.fds pid.tableId = some file) : Move s { s with
        pages := update s.pages f { s.pages f with isDirty := true }
        version := update s.version file (update (s.version file) pid.pageNo
          { left := (s.pages f).data, later := [] }) }

/-- Any number of moves. -/
abbrev Moves (s s' : StorageBufferPoolManager γ) : Prop := Relation.ReflTransGen Move s s'

/-- The pin count of at most one cached page changes, and the replacer with it. -/
inductive Repinned : StorageBufferPoolManager γ → StorageBufferPoolManager γ → Prop where
  | same {s} : Repinned s s
  | pin {s f n pid lruList} (hf : f < s.poolSize) (hid : (s.pages f).id = some pid)
      (hlru : lruList.Nodup) (hothers : ∀ g, g ≠ f → (g ∈ lruList ↔ g ∈ s.lruList))
      (hpin : f ∈ lruList ↔ n = 0) : Repinned s { s with
        lruList := lruList
        pages := update s.pages f { s.pages f with pinCount := n } }

variable {s s' : StorageBufferPoolManager γ}

theorem Move.coherent (m : Move s s') (h : s.Coherent) : s'.Coherent := by
  cases m with
  | write hf hid hfile => exact h.written hf hid hfile
  | assign hf _ hclean hnone hfile hhas _ => exact h.assign hf hclean hnone hfile hhas
  | release hf hid hpin hclean hlru hothers hdel =>
    exact h.release hf hid hpin hclean hlru hothers hdel
  | allocate =>
    refine h.withDisk { h.contents.tables with } ?_ ?_ ?_
    · exact fun _ _ _ _ => rfl
    · exact fun _ _ _ _ _ _ => rfl
    · exact fun _ _ => .inr ⟨rfl, rfl⟩
  | extend file p data => exact h.extended file p data
  | overwrite hid hfile hhas => exact h.setData hid hfile hhas
  | leave hf hid hfile => exact h.leave hf hid hfile

theorem Moves.coherent (m : Moves s s') (h : s.Coherent) : s'.Coherent := by
  induction m with
  | refl => exact h
  | tail _ move ih => exact move.coherent ih

theorem Repinned.coherent (r : Repinned s s') (h : s.Coherent) : s'.Coherent := by
  cases r with
  | same => exact h
  | pin hf hid hlru hothers hpin => exact h.setPinCount hf hid hlru hothers hpin

/-- The pages that are pinned stay where they are, pinned as often. -/
def Kept (s s' : StorageBufferPoolManager γ) : Prop :=
  s'.poolSize = s.poolSize ∧ ∀ f, 0 < (s.pages f).pinCount →
    (s'.pages f).id = (s.pages f).id ∧ (s'.pages f).pinCount = (s.pages f).pinCount

theorem kept_update_of_unpinned {f : Nat} (hpin : (s.pages f).pinCount = 0) {frame : Frame γ}
    (hsize : s'.poolSize = s.poolSize) (hpages : s'.pages = update s.pages f frame) :
    Kept s s' := by
  refine ⟨hsize, ?_⟩
  intro g hg
  have hgf : g ≠ f := by
    rintro rfl
    omega
  rw [hpages, update_of_ne hgf]
  exact ⟨rfl, rfl⟩

theorem kept_update_of_eq {f : Nat} {frame : Frame γ} (hsize : s'.poolSize = s.poolSize)
    (hpages : s'.pages = update s.pages f frame) (hid : frame.id = (s.pages f).id)
    (hpin : frame.pinCount = (s.pages f).pinCount) : Kept s s' := by
  refine ⟨hsize, ?_⟩
  intro g _
  rw [hpages]
  by_cases hgf : g = f
  · subst hgf
    rw [update_self]
    exact ⟨hid, hpin⟩
  · rw [update_of_ne hgf]
    exact ⟨rfl, rfl⟩

theorem Move.kept (m : Move s s') : Kept s s' := by
  cases m with
  | write | overwrite | leave => exact kept_update_of_eq rfl rfl rfl rfl
  | assign _ hpin | release _ _ hpin => exact kept_update_of_unpinned hpin rfl rfl
  | allocate | extend => exact ⟨rfl, fun _ _ => ⟨rfl, rfl⟩⟩

theorem Moves.kept (m : Moves s s') : Kept s s' := by
  induction m with
  | refl => exact ⟨rfl, fun _ _ => ⟨rfl, rfl⟩⟩
  | tail _ move ih =>
    refine ⟨move.kept.1.trans ih.1, ?_⟩
    intro f hf
    obtain ⟨hid, hpin⟩ := ih.2 f hf
    obtain ⟨hid', hpin'⟩ := move.kept.2 f (by omega)
    exact ⟨hid'.trans hid, hpin'.trans hpin⟩

theorem Repinned.ids (r : Repinned s s') :
    s'.poolSize = s.poolSize ∧ ∀ f, (s'.pages f).id = (s.pages f).id := by
  cases r with
  | same => exact ⟨rfl, fun _ => rfl⟩
  | @pin f n =>
    refine ⟨rfl, ?_⟩
    intro g
    by_cases hgf : g = f
    · subst hgf
      simp
    · simp [update_of_ne hgf]

/-- The next page of a file is past its end and past all of its cached pages. -/
structure Numbered (s : StorageBufferPoolManager γ) : Prop where
  stored : ∀ fd file, s.disk.fds fd = some file → (s.disk.files file).size ≤ s.disk.fd2pageno fd
  cached : ∀ f < s.poolSize, ∀ pid, (s.pages f).id = some pid →
    pid.pageNo < s.disk.fd2pageno pid.tableId

theorem Numbered.congr (h : s.Numbered) (hdisk : s'.disk = s.disk)
    (hsize : s'.poolSize = s.poolSize)
    (hid : ∀ f pid, (s'.pages f).id = some pid → (s.pages f).id = some pid) : s'.Numbered := by
  constructor
  · rw [hdisk]
    exact h.stored
  · intro f hf pid hpid
    rw [hdisk]
    exact h.cached f (hsize ▸ hf) pid (hid f pid hpid)

theorem id_of_update {f g : Nat} {frame : Frame γ} {pid : PageId}
    (h : (update s.pages f frame g).id = some pid)
    (hframe : frame.id = none ∨ frame.id = (s.pages f).id) : (s.pages g).id = some pid := by
  by_cases hgf : g = f
  · subst hgf
    rw [update_self] at h
    rcases hframe with hnone | heq
    · rw [hnone] at h
      cases h
    · rwa [← heq]
  · rwa [update_of_ne hgf] at h

theorem Move.numbered (m : Move s s') (hco : s.Coherent) (h : s.Numbered) : s'.Numbered := by
  cases m with
  | @write f pid file hf hid hfile =>
    constructor
    · intro fd file' hfd
      dsimp only [written] at hfd ⊢
      by_cases hff : file' = file
      · subst hff
        have hpage := h.cached f hf pid hid
        have hold := h.stored fd file' hfd
        rw [← hco.contents.tables.one_fd hfd hfile] at hpage
        simp only [update_self, DiskFile.write_size]
        omega
      · simp only [update_of_ne hff]
        exact h.stored fd file' hfd
    · intro g hg pid' hgid
      exact h.cached g hg pid' (id_of_update hgid (.inr rfl))
  | @assign f pid file data hf _ _ _ hfile _ hnum =>
    constructor
    · exact h.stored
    · intro g hg pid' hgid
      by_cases hgf : g = f
      · subst hgf
        simp only [StorageBufferPoolManager.assign, update_self,
          Option.some.injEq] at hgid
        subst hgid
        have hold := h.stored _ file hfile
        dsimp only [StorageBufferPoolManager.assign]
        omega
      · simp only [StorageBufferPoolManager.assign, update_of_ne hgf] at hgid
        exact h.cached g hg pid' hgid
  | release => exact h.congr rfl rfl fun f pid hpid => id_of_update hpid (.inl rfl)
  | @allocate fd =>
    have hle : ∀ fd', s.disk.fd2pageno fd' ≤ (s.disk.allocatePage fd).1.fd2pageno fd' := by
      intro fd'
      dsimp only [DiskManager.allocatePage]
      by_cases heq : fd' = fd
      · subst heq
        simp
      · simp [update_of_ne heq]
    constructor
    · intro fd' file hfd
      exact Nat.le_trans (h.stored fd' file hfd) (hle fd')
    · intro g hg pid hgid
      exact Nat.lt_of_lt_of_le (h.cached g hg pid hgid) (hle pid.tableId)
  | extend => exact h.congr rfl rfl fun _ _ hpid => hpid
  | overwrite | leave => exact h.congr rfl rfl fun _ _ hpid => id_of_update hpid (.inr rfl)

theorem Moves.numbered (m : Moves s s') (hco : s.Coherent) (h : s.Numbered) : s'.Numbered := by
  induction m with
  | refl => exact h
  | tail ms move ih => exact move.numbered (Moves.coherent ms hco) ih

theorem Repinned.numbered (r : Repinned s s') (h : s.Numbered) : s'.Numbered := by
  cases r with
  | same => exact h
  | pin => exact h.congr rfl rfl fun _ _ hpid => id_of_update hpid (.inr rfl)

end StorageBufferPoolManager

end StoragePool
