import HybridCloud.Storage.BufferPoolManager
import HybridCloud.Storage.Proofs.DiskManagerProofs

/-!
# The invariant of the buffer pool

`Placement`: the page table is the inverse of the frames' page ids, the frames without a page are
those of the free list, and a frame that nobody has pinned is on one of the two lists. `Contents`: a
cached page has the contents that its users left, and the file has them unless a dirty frame does.
-/

namespace StoragePool

open Function

variable {γ : Type} [Zero γ]

namespace StorageBufferPoolManager

/-- Where the frames are. -/
structure Placement (s : StorageBufferPoolManager γ) : Prop where
  table : ∀ pid f, s.pageTable pid = some f ↔ f < s.poolSize ∧ (s.pages f).id = some pid
  free_nodup : s.freeList.Nodup
  lru_nodup : s.lruList.Nodup
  free_lt : ∀ f ∈ s.freeList, f < s.poolSize
  lru_lt : ∀ f ∈ s.lruList, f < s.poolSize
  free_iff : ∀ f < s.poolSize, f ∈ s.freeList ↔ (s.pages f).id = none
  free_unpinned : ∀ f ∈ s.freeList, (s.pages f).pinCount = 0
  lru_unpinned : ∀ f ∈ s.lruList, (s.pages f).pinCount = 0
  listed : ∀ f < s.poolSize, (s.pages f).pinCount = 0 → f ∈ s.freeList ∨ f ∈ s.lruList
  deleted_iff : ∀ f < s.poolSize, s.deleted f = true ↔ f ∈ s.freeList ∧ f ∈ s.lruList

/-- A dirty frame has the page `p` of the file. -/
def DirtyFrame (s : StorageBufferPoolManager γ) (file p : Nat) : Prop :=
  ∃ f < s.poolSize, ∃ pid, (s.pages f).id = some pid ∧ s.disk.fds pid.tableId = some file ∧
    pid.pageNo = p ∧ (s.pages f).isDirty = true

/-- What is in the frames. -/
structure Contents (s : StorageBufferPoolManager γ) : Prop where
  tables : s.disk.WellFormed
  blank : ∀ f < s.poolSize, (s.pages f).id = none → (s.pages f).isDirty = false
  owned : ∀ f < s.poolSize, ∀ pid, (s.pages f).id = some pid →
    ∃ file, s.disk.fds pid.tableId = some file ∧ (s.pages f).file = some file
  cached : ∀ f < s.poolSize, ∀ pid file, (s.pages f).id = some pid →
    s.disk.fds pid.tableId = some file → (s.version file pid.pageNo).has (s.pages f).data
  stored : ∀ file p,
    (s.version file p).has ((s.disk.files file).pages p) ∨ s.DirtyFrame file p
  no_strays : s.strayWrites = 0

variable {s s' : StorageBufferPoolManager γ}

variable {pid : PageId} {f : Nat}

namespace Placement

theorem frame_unique (h : s.Placement) {g : Nat} (hf : f < s.poolSize) (hg : g < s.poolSize)
    (hfid : (s.pages f).id = some pid) (hgid : (s.pages g).id = some pid) : f = g := by
  have h₁ := (h.table pid f).2 ⟨hf, hfid⟩
  rw [(h.table pid g).2 ⟨hg, hgid⟩] at h₁
  exact (Option.some.inj h₁).symm

theorem not_free (h : s.Placement) (hf : f < s.poolSize) (hid : (s.pages f).id = some pid) :
    f ∉ s.freeList := by
  rw [h.free_iff f hf, hid]
  exact Option.some_ne_none pid

theorem not_cached (h : s.Placement) (hnone : s.pageTable pid = none) (hf : f < s.poolSize) :
    (s.pages f).id ≠ some pid := by
  intro hid
  rw [(h.table pid f).2 ⟨hf, hid⟩] at hnone
  cases hnone

theorem update_same {β : Type} {x : Frame γ} (r : Frame γ → β) (hx : r x = r (s.pages f)) (g : Nat) :
    r (update s.pages f x g) = r (s.pages g) := by
  by_cases hgf : g = f
  · subst hgf
    simpa using hx
  · rw [update_of_ne hgf]

theorem setFrame (h : s.Placement) {x : Frame γ} (hid : x.id = (s.pages f).id)
    (hpin : x.pinCount = (s.pages f).pinCount) :
    ({ s with pages := update s.pages f x } : StorageBufferPoolManager γ).Placement := by
  have hids := update_same Frame.id hid
  have hpins := update_same Frame.pinCount hpin
  exact { h with
    table := by simpa only [hids] using h.table
    free_iff := by simpa only [hids] using h.free_iff
    free_unpinned := by simpa only [hpins] using h.free_unpinned
    lru_unpinned := by simpa only [hpins] using h.lru_unpinned
    listed := by simpa only [hpins] using h.listed }

theorem change (h : s.Placement) (hf : f < s.poolSize) {x : Frame γ}
    {pageTable : PageId → Option Nat} {freeList lruList : List Nat} {deleted : Nat → Bool}
    (htable : ∀ pid g, pageTable pid = some g ↔
      g < s.poolSize ∧ (update s.pages f x g).id = some pid)
    (hfree : freeList.Nodup) (hlru : lruList.Nodup)
    (hothers : ∀ g, g ≠ f → (g ∈ freeList ↔ g ∈ s.freeList) ∧ (g ∈ lruList ↔ g ∈ s.lruList) ∧
      deleted g = s.deleted g)
    (hid : f ∈ freeList ↔ x.id = none) (hpin : x.pinCount = 0 ↔ f ∈ freeList ∨ f ∈ lruList)
    (hdeleted : deleted f = true ↔ f ∈ freeList ∧ f ∈ lruList) :
    ({ s with
      pageTable := pageTable, freeList := freeList, lruList := lruList, deleted := deleted
      pages := update s.pages f x } : StorageBufferPoolManager γ).Placement := by
  refine ⟨htable, hfree, hlru, ?_, ?_, ?_, ?_, ?_, ?_, ?_⟩ <;> intro g hg <;>
    by_cases hgf : g = f
  · exact hgf ▸ hf
  · exact h.free_lt g ((hothers g hgf).1.1 hg)
  · exact hgf ▸ hf
  · exact h.lru_lt g ((hothers g hgf).2.1.1 hg)
  · subst hgf
    simpa using hid
  · simpa [hgf, hothers g hgf] using h.free_iff g hg
  · subst hgf
    simpa using hpin.2 (.inl hg)
  · simpa [hgf] using h.free_unpinned g ((hothers g hgf).1.1 hg)
  · subst hgf
    simpa using hpin.2 (.inr hg)
  · simpa [hgf] using h.lru_unpinned g ((hothers g hgf).2.1.1 hg)
  · subst hgf
    simpa using hpin.1
  · simpa [hgf, hothers g hgf] using h.listed g hg
  · subst hgf
    exact hdeleted
  · simpa [hothers g hgf] using h.deleted_iff g hg

end Placement

/-- What the contents of a frame may be. -/
def FrameOk (s : StorageBufferPoolManager γ) (x : Frame γ) : Prop :=
  (x.id = none → x.isDirty = false) ∧ ∀ pid, x.id = some pid →
    ∃ file, s.disk.fds pid.tableId = some file ∧ x.file = some file ∧
      (s.version file pid.pageNo).has x.data

namespace Contents

theorem frameOk (h : s.Contents) (hf : f < s.poolSize) : s.FrameOk (s.pages f) := by
  refine ⟨h.blank f hf, fun pid hid => ?_⟩
  obtain ⟨file, hfile, hown⟩ := h.owned f hf pid hid
  exact ⟨file, hfile, hown, h.cached f hf pid file hid hfile⟩

theorem of_frames (tables : s.disk.WellFormed) (frames : ∀ f < s.poolSize, s.FrameOk (s.pages f))
    (stored : ∀ file p, (s.version file p).has ((s.disk.files file).pages p) ∨ s.DirtyFrame file p)
    (no_strays : s.strayWrites = 0) : s.Contents := by
  refine ⟨tables, fun f hf => (frames f hf).1, ?_, ?_, stored, no_strays⟩
  · intro f hf pid hid
    obtain ⟨file, hfile, hown, -⟩ := (frames f hf).2 pid hid
    exact ⟨file, hfile, hown⟩
  · intro f hf pid file hid hfile
    obtain ⟨file', hfile', -, hhas⟩ := (frames f hf).2 pid hid
    obtain rfl : file' = file := Option.some.inj (hfile'.symm.trans hfile)
    exact hhas

theorem setFrame (h : s.Contents) {x : Frame γ} (hx : f < s.poolSize → s.FrameOk x)
    (hdirty : ∀ pid file, (s.pages f).id = some pid → s.disk.fds pid.tableId = some file →
      (s.pages f).isDirty = true → x.id = some pid ∧ x.isDirty = true ∨
        (s.version file pid.pageNo).has ((s.disk.files file).pages pid.pageNo)) :
    ({ s with pages := update s.pages f x } : StorageBufferPoolManager γ).Contents := by
  refine of_frames h.tables ?_ ?_ h.no_strays
  · exact (forall_update_iff _ fun g y => g < s.poolSize → s.FrameOk y).2
      ⟨hx, fun g _ hg => h.frameOk hg⟩
  · intro file p
    rcases h.stored file p with hhas | ⟨g, hg, pid, hid, hfile, rfl, hd⟩
    · exact .inl hhas
    · by_cases hgf : g = f
      · subst hgf
        refine (hdirty pid file hid hfile hd).symm.imp_right ?_
        rintro ⟨hid', hd'⟩
        exact ⟨g, hg, pid, by simpa using hid', hfile, rfl, by simpa using hd'⟩
      · exact .inr ⟨g, hg, pid, by simpa [hgf] using hid, hfile, rfl, by simpa [hgf] using hd⟩

end Contents

/-- Both hold. -/
structure Coherent (s : StorageBufferPoolManager γ) : Prop where
  placement : s.Placement
  contents : s.Contents

/-- A page, dirty or not, has been written to its file. -/
def written (s : StorageBufferPoolManager γ) (f file : Nat) (pid : PageId) :
    StorageBufferPoolManager γ :=
  { s with
    disk := { s.disk with
      files := update s.disk.files file
        ((s.disk.files file).write pid.pageNo (s.pages f).data) }
    pages := update s.pages f { s.pages f with isDirty := false } }

/-- The contents of a page may be `data` from now on. -/
def extended (s : StorageBufferPoolManager γ) (file p : Nat) (data : γ) :
    StorageBufferPoolManager γ :=
  { s with
    version := update s.version file (update (s.version file) p
      { s.version file p with later := data :: (s.version file p).later }) }

variable {file : Nat}

namespace Coherent

theorem stored_of_uncached (h : s.Coherent) (hnone : s.pageTable pid = none)
    (hfile : s.disk.fds pid.tableId = some file) :
    (s.version file pid.pageNo).has ((s.disk.files file).pages pid.pageNo) := by
  refine (h.contents.stored file pid.pageNo).resolve_right ?_
  rintro ⟨f, hf, pid', hid, hfile', hp, -⟩
  have heq : pid' = pid := by
    have htable := h.contents.tables.one_fd hfile' hfile
    cases pid
    cases pid'
    simp_all
  exact h.placement.not_cached hnone hf (heq ▸ hid)

theorem writeFrame (h : s.Coherent) (hf : f < s.poolSize) (hid : (s.pages f).id = some pid) :
    ∃ file, s.disk.fds pid.tableId = some file ∧ s.writeFrame f = some (s.written f file pid) := by
  obtain ⟨file, hfile, hown⟩ := h.contents.owned f hf pid hid
  refine ⟨file, hfile, ?_⟩
  unfold StorageBufferPoolManager.writeFrame
  simp only [hid, DiskManager.writePage_of_open hfile, hfile, hown, if_true,
    StorageBufferPoolManager.written]

theorem withDisk (h : s.Coherent) {disk : DiskManager γ} {version : Nat → Nat → Version γ}
    (htables : disk.WellFormed)
    (hfds : ∀ f < s.poolSize, ∀ pid, (s.pages f).id = some pid →
      disk.fds pid.tableId = s.disk.fds pid.tableId)
    (hcached : ∀ f < s.poolSize, ∀ pid file, (s.pages f).id = some pid →
      s.disk.fds pid.tableId = some file →
      version file pid.pageNo = s.version file pid.pageNo)
    (hstored : ∀ file p, (version file p).has ((disk.files file).pages p) ∨
      version file p = s.version file p ∧
        (disk.files file).pages p = (s.disk.files file).pages p) :
    ({ s with disk := disk, version := version } : StorageBufferPoolManager γ).Coherent := by
  refine ⟨{ h.placement with }, ?_⟩
  constructor
  · exact htables
  · exact h.contents.blank
  · intro f hf pid hid
    rw [hfds f hf pid hid]
    exact h.contents.owned f hf pid hid
  · intro f hf pid file hid hfile
    dsimp only at hfile ⊢
    rw [hfds f hf pid hid] at hfile
    rw [hcached f hf pid file hid hfile]
    exact h.contents.cached f hf pid file hid hfile
  · intro file p
    rcases hstored file p with hhas | ⟨hversion, hpages⟩
    · exact .inl hhas
    · dsimp only
      rw [hversion, hpages]
      refine (h.contents.stored file p).imp_right ?_
      rintro ⟨f, hf, pid, hid, hfile, hp, hdirty⟩
      exact ⟨f, hf, pid, hid, (hfds f hf pid hid).trans hfile, hp, hdirty⟩
  · exact h.contents.no_strays

theorem written (h : s.Coherent) (hf : f < s.poolSize) (hid : (s.pages f).id = some pid)
    (hfile : s.disk.fds pid.tableId = some file) : (s.written f file pid).Coherent := by
  have hok := h.contents.frameOk hf
  have hhas := h.contents.cached f hf pid file hid hfile
  have hwritten : ({ s with disk := { s.disk with
      files := update s.disk.files file
        ((s.disk.files file).write pid.pageNo (s.pages f).data) } } :
      StorageBufferPoolManager γ).Coherent := by
    refine h.withDisk { h.contents.tables with } (fun _ _ _ _ => rfl)
      (fun _ _ _ _ _ _ => rfl) fun file' p => ?_
    by_cases hff : file' = file
    · subst hff
      by_cases hp : p = pid.pageNo
      · subst hp
        exact .inl (by simpa using hhas)
      · exact .inr ⟨rfl, by simp [hp]⟩
    · exact .inr ⟨rfl, by simp [hff]⟩
  refine ⟨hwritten.placement.setFrame rfl rfl, hwritten.contents.setFrame
    (fun _ => ⟨fun _ => rfl, hok.2⟩) fun pid' file' hid' hfile' _ => .inr ?_⟩
  obtain rfl := Option.some.inj (hid.symm.trans hid')
  obtain rfl := Option.some.inj (hfile.symm.trans hfile')
  simpa using hhas

/-- After `page_table_.erase` the frame has no entry, and the other entries are as before. -/
theorem eraseEntry_iff (h : s.Placement) (hf : f < s.poolSize) (pid : PageId) (g : Nat) :
    s.eraseEntry f pid = some g ↔ g ≠ f ∧ g < s.poolSize ∧ (s.pages g).id = some pid := by
  unfold eraseEntry
  cases hid : (s.pages f).id with
  | none =>
    rw [h.table]
    constructor
    · rintro ⟨hg, hgid⟩
      refine ⟨?_, hg, hgid⟩
      rintro rfl
      rw [hid] at hgid
      cases hgid
    · rintro ⟨-, hg, hgid⟩
      exact ⟨hg, hgid⟩
  | some old =>
    simp only
    by_cases hpid : pid = old
    · subst hpid
      simp only [update_self]
      constructor
      · intro habs
        cases habs
      · rintro ⟨hgf, hg, hgid⟩
        exact absurd (h.frame_unique hg hf hgid hid) hgf
    · rw [update_of_ne hpid, h.table]
      constructor
      · rintro ⟨hg, hgid⟩
        refine ⟨?_, hg, hgid⟩
        rintro rfl
        rw [hid] at hgid
        exact hpid (Option.some.inj hgid).symm
      · rintro ⟨-, hg, hgid⟩
        exact ⟨hg, hgid⟩

end Coherent

/-- A frame that was free or could be evicted gets a page, pinned once. -/
def assign (s : StorageBufferPoolManager γ) (f : Nat) (pid : PageId) (data : γ) :
    StorageBufferPoolManager γ :=
  { s with
    freeList := s.freeList.erase f
    lruList := s.lruList.erase f
    pageTable := update (s.eraseEntry f) pid (some f)
    pages := update s.pages f
      { id := some pid, data := data, isDirty := false, pinCount := 1,
        file := s.disk.fds pid.tableId }
    deleted := update s.deleted f false }

/-- A frame that nobody has pinned loses its page and goes to the free list; `lruList` is what
becomes of the replacer, and `isDeleted` says whether the frame stays in it. -/
def release (s : StorageBufferPoolManager γ) (f : Nat) (lruList : List Nat) (isDeleted : Bool) :
    StorageBufferPoolManager γ :=
  { s with
    pageTable := s.eraseEntry f
    lruList := lruList
    pages := update s.pages f Frame.unused
    freeList := s.freeList ++ [f]
    deleted := update s.deleted f isDeleted }

namespace Coherent

theorem mem_erase_others {l : List Nat} (hl : l.Nodup) (g : Nat) (hg : g ≠ f) :
    g ∈ l.erase f ↔ g ∈ l := by
  simp [hl.mem_erase_iff, hg]

theorem assign (h : s.Coherent) {data : γ} (hf : f < s.poolSize)
    (hclean : (s.pages f).isDirty = false) (hnone : s.pageTable pid = none)
    (hfile : s.disk.fds pid.tableId = some file) (hhas : (s.version file pid.pageNo).has data) :
    (s.assign f pid data).Coherent := by
  have hP := h.placement
  constructor
  · refine hP.change hf ?_ (hP.free_nodup.erase f) (hP.lru_nodup.erase f) ?_ ?_ ?_ ?_
    · intro pid' g
      by_cases hpid : pid' = pid
      · subst hpid
        rw [update_self]
        by_cases hgf : g = f
        · subst hgf
          simp [hf]
        · simp only [Option.some.injEq, Ne.symm hgf, update_of_ne hgf, false_iff, not_and]
          exact hP.not_cached hnone
      · rw [update_of_ne hpid, eraseEntry_iff hP hf]
        by_cases hgf : g = f
        · subst hgf
          simp [Ne.symm hpid]
        · simp [hgf]
    · intro g hgf
      exact ⟨mem_erase_others hP.free_nodup g hgf, mem_erase_others hP.lru_nodup g hgf,
        update_of_ne hgf ..⟩
    · simp [hP.free_nodup.not_mem_erase]
    · simp [hP.free_nodup.not_mem_erase, hP.lru_nodup.not_mem_erase]
    · simp [hP.free_nodup.not_mem_erase]
  · refine { h.contents.setFrame (fun _ => ⟨fun hnone => ?_, fun pid' hid => ?_⟩)
      (by simp [hclean]) with }
    · cases hnone
    · cases hid
      exact ⟨file, hfile, hfile, hhas⟩

variable {lruList : List Nat}

/-- The frame may stay in the replacer, as `delete_page` leaves it, or be taken out of it. -/
theorem release (h : s.Coherent) (hf : f < s.poolSize) (hid : (s.pages f).id = some pid)
    (hpin : (s.pages f).pinCount = 0) (hclean : (s.pages f).isDirty = false) {isDeleted : Bool}
    (hlru : lruList.Nodup) (hothers : ∀ g, g ≠ f → (g ∈ lruList ↔ g ∈ s.lruList))
    (hdel : f ∈ lruList ↔ isDeleted = true) : (s.release f lruList isDeleted).Coherent := by
  have hP := h.placement
  have hnotfree : f ∉ s.freeList := hP.not_free hf hid
  constructor
  · refine hP.change hf ?_ ?_ hlru ?_ ?_ ?_ ?_
    · intro pid' g
      rw [eraseEntry_iff hP hf]
      by_cases hgf : g = f
      · subst hgf
        simp [Frame.unused]
      · simp [hgf]
    · refine List.nodup_append.2 ⟨hP.free_nodup, by simp, ?_⟩
      intro g hg g' hg' heq
      rw [heq, List.mem_singleton.1 hg'] at hg
      exact hnotfree hg
    · intro g hgf
      exact ⟨by simp [hgf], hothers g hgf, update_of_ne hgf ..⟩
    · simp [Frame.unused]
    · simp [Frame.unused]
    · simp [hdel]
  · exact { h.contents.setFrame (x := Frame.unused) (fun _ => ⟨fun _ => rfl, nofun⟩)
      (by simp [hclean]) with }

theorem setPinCount (h : s.Coherent) {n : Nat} (hf : f < s.poolSize)
    (hid : (s.pages f).id = some pid) (hlru : lruList.Nodup)
    (hothers : ∀ g, g ≠ f → (g ∈ lruList ↔ g ∈ s.lruList)) (hpin : f ∈ lruList ↔ n = 0) :
    ({ s with
      lruList := lruList
      pages := update s.pages f { s.pages f with pinCount := n } } :
        StorageBufferPoolManager γ).Coherent := by
  have hP := h.placement
  have hnotfree : f ∉ s.freeList := hP.not_free hf hid
  have hids := Placement.update_same (s := s) (f := f) (x := { s.pages f with pinCount := n })
    Frame.id rfl
  constructor
  · refine hP.change hf (by simpa only [hids] using hP.table) hP.free_nodup hlru
      (fun g hgf => ⟨.rfl, hothers g hgf, rfl⟩) (hP.free_iff f hf) ?_ ?_
    · simp [hnotfree, hpin]
    · rw [hP.deleted_iff f hf]
      simp [hnotfree]
  · exact { h.contents.setFrame (x := { s.pages f with pinCount := n })
      (fun hf => h.contents.frameOk hf) (fun _ _ hid _ hd => .inl ⟨hid, hd⟩) with }

theorem extended (h : s.Coherent) (file p : Nat) (data : γ) :
    (s.extended file p data).Coherent := by
  have hmono : ∀ file' p' x, (s.version file' p').has x →
      (update s.version file (update (s.version file) p
        { s.version file p with later := data :: (s.version file p).later }) file' p').has x := by
    intro file' p' x hx
    by_cases hfile : file' = file
    · subst hfile
      by_cases hp : p' = p
      · subst hp
        simp only [update_self]
        exact hx.imp_right (List.mem_cons_of_mem _)
      · simpa [update_of_ne hp] using hx
    · simpa [update_of_ne hfile] using hx
  refine ⟨{ h.placement with }, ?_⟩
  constructor
  · exact h.contents.tables
  · exact h.contents.blank
  · exact h.contents.owned
  · intro f hf pid file' hid hfile
    exact hmono _ _ _ (h.contents.cached f hf pid file' hid hfile)
  · intro file' p'
    exact (h.contents.stored file' p').imp_left (hmono _ _ _)
  · exact h.contents.no_strays

theorem setData (h : s.Coherent) {data : γ} (hid : (s.pages f).id = some pid)
    (hfile : s.disk.fds pid.tableId = some file) (hhas : (s.version file pid.pageNo).has data) :
    ({ s with pages := update s.pages f { s.pages f with data := data } } :
        StorageBufferPoolManager γ).Coherent := by
  refine ⟨h.placement.setFrame rfl rfl, h.contents.setFrame (fun hf => ?_)
    fun _ _ hid _ hd => .inl ⟨hid, hd⟩⟩
  refine ⟨(h.contents.frameOk hf).1, fun pid' hid' => ?_⟩
  obtain rfl := Option.some.inj (hid.symm.trans hid')
  obtain ⟨file', hfile', hown, -⟩ := (h.contents.frameOk hf).2 pid hid
  obtain rfl := Option.some.inj (hfile.symm.trans hfile')
  exact ⟨file, hfile, hown, hhas⟩

theorem leave (h : s.Coherent) (hf : f < s.poolSize) (hid : (s.pages f).id = some pid)
    (hfile : s.disk.fds pid.tableId = some file) :
    ({ s with
      pages := update s.pages f { s.pages f with isDirty := true }
      version := update s.version file (update (s.version file) pid.pageNo
        { left := (s.pages f).data, later := [] }) } : StorageBufferPoolManager γ).Coherent := by
  have hversion : ∀ file' p, ¬ (file' = file ∧ p = pid.pageNo) →
      update s.version file (update (s.version file) pid.pageNo
        { left := (s.pages f).data, later := [] }) file' p = s.version file' p := by
    intro file' p hne
    by_cases hff : file' = file
    · subst hff
      rw [update_self, update_of_ne fun hp => hne ⟨rfl, hp⟩]
    · rw [update_of_ne hff]
  have hok := h.contents.frameOk hf
  -- first the mark, then the version
  have hmarked := h.contents.setFrame (f := f) (x := { s.pages f with isDirty := true })
    (fun _ => ⟨fun hnone => absurd (hid.symm.trans hnone) nofun, hok.2⟩)
    fun _ _ hid _ _ => .inl ⟨hid, rfl⟩
  have hplaced := h.placement.setFrame (f := f) (x := { s.pages f with isDirty := true }) rfl rfl
  have hfid : (update s.pages f { s.pages f with isDirty := true } f).id = some pid := by
    simpa using hid
  refine ⟨{ hplaced with }, { hmarked with cached := ?_, stored := ?_ }⟩
  · intro g hg pid' file' hgid hfile'
    by_cases hpage : file' = file ∧ pid'.pageNo = pid.pageNo
    · -- one file has one descriptor, so this is the frame of the page
      have htable : pid'.tableId = pid.tableId :=
        h.contents.tables.one_fd (hpage.1 ▸ hfile') hfile
      have hpid : pid' = pid := by
        cases pid
        cases pid'
        simp_all
      obtain rfl : g = f := hplaced.frame_unique hg hf (hpid ▸ hgid) hfid
      rw [hpage.1, hpage.2]
      simp [Version.has]
    · dsimp only
      rw [hversion _ _ hpage]
      exact hmarked.cached g hg pid' file' hgid hfile'
  · intro file' p
    by_cases hpage : file' = file ∧ p = pid.pageNo
    · right
      exact ⟨f, hf, pid, hfid, hpage.1 ▸ hfile, hpage.2.symm, by simp⟩
    · dsimp only
      rw [hversion _ _ hpage]
      exact hmarked.stored file' p

end Coherent

end StorageBufferPoolManager

end StoragePool
