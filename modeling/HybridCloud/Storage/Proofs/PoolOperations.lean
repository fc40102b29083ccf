import HybridCloud.Storage.Proofs.PoolMoves

/-!
# The operations of the buffer pool, taken apart

For each operation of the pool: from a state with the invariant it completes in a sequence of moves,
after which one pin count may have changed.
-/

namespace StoragePool

open Outcome Function

variable {γ : Type} [Zero γ]

attribute [local simp] StorageBufferPoolManager.written

namespace StorageBufferPoolManager

variable {s s' : StorageBufferPoolManager γ}

/-- The operation is a sequence of moves and at most one change of a pin count. -/
def Performs (s s' : StorageBufferPoolManager γ) : Prop := ∃ s₁, Moves s s₁ ∧ Repinned s₁ s'

theorem Moves.performs (m : Moves s s') : Performs s s' := ⟨s', m, .same⟩

theorem Repinned.performs (r : Repinned s s') : Performs s s' := ⟨s, .refl, r⟩

variable {f : Nat} {s₁ : StorageBufferPoolManager γ}

theorem findVictimPage_some (h : s.Placement) (hv : s.findVictimPage = some (f, s₁)) :
    f < s.poolSize ∧ (s.pages f).pinCount = 0 ∧ ∃ lruList, lruList.erase f = s.lruList.erase f ∧
      s₁ = { s with freeList := s.freeList.erase f, lruList := lruList } := by
  unfold findVictimPage at hv
  cases hfree : s.freeList with
  | cons g rest =>
    simp only [hfree, Option.some.injEq, Prod.mk.injEq] at hv
    obtain ⟨rfl, rfl⟩ := hv
    have hmem : g ∈ s.freeList := by simp [hfree]
    refine ⟨h.free_lt g hmem, h.free_unpinned g hmem, s.lruList, rfl, ?_⟩
    simp
  | nil =>
    simp only [hfree] at hv
    cases hlast : s.lruList.getLast? with
    | none => simp [hlast] at hv
    | some g =>
      simp only [hlast, Option.some.injEq, Prod.mk.injEq] at hv
      obtain ⟨rfl, rfl⟩ := hv
      obtain ⟨front, hfront⟩ := List.getLast?_eq_some_iff.1 hlast
      have hmem : g ∈ s.lruList := by simp [hfront]
      have hnotin : g ∉ front := by
        have hnd := h.lru_nodup
        rw [hfront, List.nodup_append] at hnd
        intro hg
        exact hnd.2.2 g hg g (by simp) rfl
      refine ⟨h.lru_lt g hmem, h.lru_unpinned g hmem, front, ?_, ?_⟩
      · rw [hfront, List.erase_append_right _ hnotin, List.erase_of_not_mem hnotin]
        simp
      · simp [hfront]

theorem findVictimPage_of_unpinned (h : s.Placement) (hf : f < s.poolSize)
    (hpin : (s.pages f).pinCount = 0) : ∃ g s₁, s.findVictimPage = some (g, s₁) := by
  unfold findVictimPage
  cases hfree : s.freeList with
  | cons g rest => exact ⟨g, _, rfl⟩
  | nil =>
    cases hlast : s.lruList.getLast? with
    | some g => exact ⟨g, _, rfl⟩
    | none =>
      have hnil : s.lruList = [] := List.getLast?_eq_none_iff.1 hlast
      rcases h.listed f hf hpin with hmem | hmem
      · simp [hfree] at hmem
      · simp [hnil] at hmem

/-- The frame `f` has been made clean, and nothing else that the pool looks at has changed. -/
structure Cleaned (f : Nat) (s s₂ : StorageBufferPoolManager γ) : Prop where
  moves : Moves s s₂
  clean : (s₂.pages f).isDirty = false
  same_poolSize : s₂.poolSize = s.poolSize
  same_pageTable : s₂.pageTable = s.pageTable
  same_freeList : s₂.freeList = s.freeList
  same_lruList : s₂.lruList = s.lruList
  same_version : s₂.version = s.version
  same_deleted : s₂.deleted = s.deleted
  same_fds : s₂.disk.fds = s.disk.fds
  same_fd2pageno : s₂.disk.fd2pageno = s.disk.fd2pageno
  same_pins : ∀ g, (s₂.pages g).pinCount = (s.pages g).pinCount
  same_ids : ∀ g, (s₂.pages g).id = (s.pages g).id
  sizes : ∀ file, (s.disk.files file).size ≤ (s₂.disk.files file).size

theorem Coherent.cleaned (h : s.Coherent) (hf : f < s.poolSize) :
    ∃ s₂, Cleaned f s s₂ ∧ ∀ freeList lruList,
      ({ s with freeList := freeList, lruList := lruList } :
        StorageBufferPoolManager γ).cleanFrame f =
        some { s₂ with freeList := freeList, lruList := lruList } := by
  cases hdirty : (s.pages f).isDirty with
  | false =>
    exact ⟨s, ⟨.refl, hdirty, rfl, rfl, rfl, rfl, rfl, rfl, rfl, rfl, fun _ => rfl, fun _ => rfl,
      fun _ => Nat.le_refl _⟩, fun _ _ => by simp [cleanFrame, hdirty]⟩
  | true =>
    cases hid : (s.pages f).id with
    | none =>
      rw [h.contents.blank f hf hid] at hdirty
      cases hdirty
    | some pid =>
      obtain ⟨file, hfile, hown⟩ := h.contents.owned f hf pid hid
      refine ⟨s.written f file pid, ?_, ?_⟩
      · refine ⟨.single (.write hf hid hfile), ?_, rfl, rfl, rfl, rfl, rfl, rfl, rfl, rfl, ?_, ?_, ?_⟩
        · simp
        · intro g
          by_cases hgf : g = f
          · subst hgf
            simp
          · simp [update_of_ne hgf]
        · intro g
          by_cases hgf : g = f
          · subst hgf
            simp
          · simp [update_of_ne hgf]
        · intro file'
          by_cases hff : file' = file
          · subst hff
            simp only [StorageBufferPoolManager.written, update_self, DiskFile.write_size]
            omega
          · simp [update_of_ne hff]
      · intro freeList lruList
        simp [cleanFrame, StorageBufferPoolManager.writeFrame, hid,
          hdirty, DiskManager.writePage_of_open hfile, hfile, hown]

variable {s₂ : StorageBufferPoolManager γ}

theorem Cleaned.cleanFrame_eq   (hs₂ : Cleaned f s s₂)
    (hclean : ∀ freeList lruList, ({ s with freeList := freeList, lruList := lruList } :
      StorageBufferPoolManager γ).cleanFrame f =
        some { s₂ with freeList := freeList, lruList := lruList }) :
    s.cleanFrame f = some s₂ := by
  have hlists : s.cleanFrame f = some { s₂ with freeList := s.freeList, lruList := s.lruList } :=
    hclean s.freeList s.lruList
  rw [← hs₂.same_freeList, ← hs₂.same_lruList] at hlists
  exact hlists

theorem updatePage_eq (hclean : s.cleanFrame f = some s₂) (newPageId : Option PageId) :
    s.updatePage f newPageId = some { s₂ with
      pageTable :=
        match newPageId with
        | none => s₂.eraseEntry f
        | some pid => update (s₂.eraseEntry f) pid (some f)
      pages := update s₂.pages f
        { s₂.pages f with
          data := 0
          id := newPageId
          file := newPageId.bind fun pid => s₂.disk.fds pid.tableId }
      deleted := update s₂.deleted f false } := by
  cases newPageId with
  | none | some pid => simp [updatePage, hclean]

theorem Coherent.updatePage_victim (h : s.Coherent) (hf : f < s.poolSize) {lruList : List Nat}
    (hlru : lruList.erase f = s.lruList.erase f) (pid : PageId) :
    ∃ s₂ s₃, Cleaned f s s₂ ∧
      ({ s with freeList := s.freeList.erase f, lruList := lruList } :
        StorageBufferPoolManager γ).updatePage f (some pid) = some s₃ ∧
      s₃.disk = s₂.disk ∧ s₃.version = s₂.version ∧ s₃.pinFirst f = s₂.assign f pid 0 ∧
      ∀ data, (s₃.setPage f { s₃.pages f with data := data }).pinFirst f =
        s₂.assign f pid data := by
  obtain ⟨s₂, hs₂, hclean⟩ := h.cleaned hf
  refine ⟨s₂, _, hs₂, updatePage_eq (hclean _ _) _, rfl, rfl, ?_, ?_⟩
  · simp [pinFirst, replacerPin, setPage, StorageBufferPoolManager.assign, eraseEntry, hs₂.clean,
      hs₂.same_freeList,
      hs₂.same_lruList, hlru]
  · intro data
    simp [pinFirst, replacerPin, setPage, StorageBufferPoolManager.assign, eraseEntry, hs₂.clean,
      hs₂.same_freeList,
      hs₂.same_lruList, hlru]

variable {pid : PageId}

theorem fetchPage_hit (h : s.Coherent) (hp : s.pageTable pid = some f) :
    ∃ s', s.fetchPage pid = .next (s', some f) ∧ Repinned s s' ∧
      (s'.pages f).id = some pid ∧ (s'.pages f).data = (s.pages f).data ∧
      s'.versionOf pid = s.versionOf pid := by
  obtain ⟨hf, hid⟩ := (h.placement.table pid f).1 hp
  refine ⟨(s.replacerPin f).setPage f { s.pages f with pinCount := (s.pages f).pinCount + 1 },
    ?_, ?_, ?_, ?_, rfl⟩
  · simp [fetchPage, hp]
  · refine .pin hf hid (h.placement.lru_nodup.erase f) ?_ ?_
    · exact fun g hg => Coherent.mem_erase_others h.placement.lru_nodup g hg
    · simp [replacerPin, h.placement.lru_nodup.mem_erase_iff]
  · simp [setPage, hid]
  · simp [setPage]

theorem fetchPage_miss (h : s.Coherent) (hp : s.pageTable pid = none)
    (hread : s.disk.readPage pid.tableId pid.pageNo ≠ none) {g : Nat}
    (hv : s.findVictimPage = some (g, s₁)) :
    ∃ s', s.fetchPage pid = .next (s', some g) ∧ Moves s s' ∧ (s'.pages g).id = some pid ∧
      ∃ v, s.versionOf pid = some v ∧ s'.versionOf pid = some v ∧ v.has (s'.pages g).data := by
  obtain ⟨hg, hpin, lruList, hlru, rfl⟩ := findVictimPage_some h.placement hv
  obtain ⟨s₂, s₃, hs₂, hupdate, hdisk, -, -, hassign⟩ := h.updatePage_victim hg hlru pid
  have hco : s₂.Coherent := Moves.coherent hs₂.moves h
  obtain ⟨data, hdata⟩ := Option.ne_none_iff_exists'.1 hread
  obtain ⟨file, hfile, hsize, -⟩ := DiskManager.readPage_some hdata
  have hfile₂ : s₂.disk.fds pid.tableId = some file := by rw [hs₂.same_fds, hfile]
  have hsize₂ : pid.pageNo < (s₂.disk.files file).size :=
    Nat.lt_of_lt_of_le hsize (hs₂.sizes file)
  have hread₃ : s₃.disk.readPage pid.tableId pid.pageNo =
      some ((s₂.disk.files file).pages pid.pageNo) := by
    simp [DiskManager.readPage, hdisk, hfile₂, hsize₂]
  have hnone₂ : s₂.pageTable pid = none := by rw [hs₂.same_pageTable, hp]
  have hhas := hco.stored_of_uncached hnone₂ hfile₂
  refine ⟨s₂.assign g pid ((s₂.disk.files file).pages pid.pageNo), ?_, ?_, ?_, ?_⟩
  · simp only [fetchPage, hp, hv, hupdate, hread₃, hassign, pure_def]
  · refine hs₂.moves.tail (.assign ?_ ?_ hs₂.clean hnone₂ hfile₂ hhas (.inl hsize₂))
    · rw [hs₂.same_poolSize]
      exact hg
    · rw [hs₂.same_pins, hpin]
  · simp [assign]
  · refine ⟨s.version file pid.pageNo, ?_, ?_, ?_⟩
    · simp [versionOf, hfile]
    · simp [versionOf, assign, hfile₂, hs₂.same_version]
    · simpa [assign, hs₂.same_version] using hhas

theorem fetchPage_performs (h : s.Coherent) (hr : s.Readable pid) {r : Option Nat}
    (hs : s.fetchPage pid = .next (s', r)) : Performs s s' := by
  cases hp : s.pageTable pid with
  | some f =>
    obtain ⟨s₁, hs₁, hre, -⟩ := fetchPage_hit h hp
    rw [hs] at hs₁
    cases hs₁
    exact hre.performs
  | none =>
    have hread : s.disk.readPage pid.tableId pid.pageNo ≠ none :=
      hr.resolve_left fun hne => hne hp
    cases hv : s.findVictimPage with
    | none => simp [fetchPage, hp, hv] at hs
    | some v =>
      obtain ⟨g, s₁⟩ := v
      obtain ⟨s₂, hs₂, hmoves, -⟩ := fetchPage_miss h hp hread hv
      rw [hs] at hs₂
      cases hs₂
      exact hmoves.performs

theorem Placement.lru_length (h : s.Placement) (hf : f < s.poolSize) (hnot : f ∉ s.lruList) :
    s.lruList.length ≠ s.poolSize := by
  have hsub : (f :: s.lruList) ⊆ List.range s.poolSize := by
    intro g hg
    rcases List.mem_cons.1 hg with rfl | hmem
    · exact List.mem_range.2 hf
    · exact List.mem_range.2 (h.lru_lt g hmem)
  have hlen := (List.subperm_of_subset (List.nodup_cons.2 ⟨hnot, h.lru_nodup⟩) hsub).length_le
  rw [List.length_range, List.length_cons] at hlen
  omega

theorem Repinned.unpin (h : s.Placement) (hf : f < s.poolSize) (hid : (s.pages f).id = some pid)
    (hpin : (s.pages f).pinCount ≠ 0) :
    Repinned s
      (let s₁ := s.setPage f { s.pages f with pinCount := (s.pages f).pinCount - 1 }
      if (s₁.pages f).pinCount = 0 then s₁.replacerUnpin f else s₁) := by
  have hnot : f ∉ s.lruList := fun hmem => hpin (h.lru_unpinned f hmem)
  by_cases hzero : (s.pages f).pinCount - 1 = 0
  · have hlen := h.lru_length hf hnot
    have hroom : ¬ (f ∈ s.lruList ∨ s.lruList.length = s.poolSize) := not_or.2 ⟨hnot, hlen⟩
    simp only [setPage, update_self, hzero, if_true, replacerUnpin, if_neg hroom]
    refine .pin hf hid (List.nodup_cons.2 ⟨hnot, h.lru_nodup⟩) ?_ ?_
    · intro g hg
      simp [hg]
    · simp
  · simp only [setPage, update_self, hzero, if_false]
    refine .pin hf hid h.lru_nodup (fun _ _ => Iff.rfl) ?_
    simp [hnot, hzero]

section

variable (h : s.Coherent)
include h

theorem unpinPage_performs (pid : PageId) (isDirty : Bool) :
    Performs s (s.unpinPage pid isDirty).1 := by
  unfold unpinPage
  cases hp : s.pageTable pid with
  | none => exact Moves.performs .refl
  | some f =>
    obtain ⟨hf, hid⟩ := (h.placement.table pid f).1 hp
    obtain ⟨file, hfile, -⟩ := h.contents.owned f hf pid hid
    by_cases hpin : (s.pages f).pinCount = 0
    · simp only [hpin, if_true]
      exact Moves.performs .refl
    · simp only [hpin, if_false]
      cases isDirty with
      | false => exact (Repinned.unpin h.placement hf hid hpin).performs
      | true =>
        -- the page is left as it is first, and then unpinned
        have hmove := Move.leave hf hid hfile
        have hid' : (update s.pages f { s.pages f with isDirty := true } f).id =
            some pid := by simp [hid]
        have hpin' : (update s.pages f { s.pages f with isDirty := true } f).pinCount ≠
            0 := by simpa using hpin
        have hre := Repinned.unpin (hmove.coherent h).placement hf hid' hpin'
        refine ⟨_, .single hmove, ?_⟩
        convert hre using 1
        by_cases hzero : (s.pages f).pinCount - 1 = 0
        · by_cases hroom : f ∈ s.lruList ∨ s.lruList.length = s.poolSize
          · simp [setPage, setVersion, replacerUnpin, hfile, hzero, hroom]
          · simp [setPage, setVersion, replacerUnpin, hfile, hzero, hroom]
        · simp [setPage, setVersion, hfile, hzero]

theorem flushPage_performs {r : Bool} (hs : s.flushPage pid = .next (s', r)) :
    Performs s s' := by
  unfold flushPage at hs
  cases hp : s.pageTable pid with
  | none =>
    simp only [hp, pure_def, next.injEq, Prod.mk.injEq] at hs
    exact hs.1 ▸ Moves.performs .refl
  | some f =>
    obtain ⟨hf, hid⟩ := (h.placement.table pid f).1 hp
    obtain ⟨file, hfile, hwrite⟩ := h.writeFrame hf hid
    simp only [hp, hwrite, pure_def, next.injEq, Prod.mk.injEq] at hs
    exact hs.1 ▸ Moves.performs (.single (.write hf hid hfile))

theorem flushPages_moves {which : PageId → Bool} {fs : List Nat}
    (hfs : ∀ f ∈ fs, f < s.poolSize) (hs : flushPages which fs s = .next s') : Moves s s' := by
  induction fs generalizing s with
  | nil =>
    simp only [flushPages, pure_def, next.injEq] at hs
    exact hs ▸ .refl
  | cons f fs ih =>
    have hf := hfs f (by simp)
    have hrest : ∀ g ∈ fs, g < s.poolSize := fun g hg => hfs g (List.mem_cons_of_mem _ hg)
    unfold flushPages at hs
    cases hid : (s.pages f).id with
    | none =>
      simp only [hid] at hs
      exact ih h hrest hs
    | some pid =>
      obtain ⟨file, hfile, hwrite⟩ := h.writeFrame hf hid
      simp only [hid, hwrite] at hs
      split at hs
      · have hmove := Move.write hf hid hfile
        exact (Relation.ReflTransGen.single hmove).trans (ih (hmove.coherent h) hrest hs)
      · exact ih h hrest hs

/-- `delete_page` takes the page from the frame and leaves the frame in the replacer. -/
theorem deletePage_performs {r : Bool} (hs : s.deletePage pid = .next (s', r)) :
    Performs s s' := by
  unfold deletePage at hs
  cases hp : s.pageTable pid with
  | none =>
    simp only [hp, pure_def, next.injEq, Prod.mk.injEq] at hs
    exact hs.1 ▸ Moves.performs .refl
  | some f =>
    obtain ⟨hf, hid⟩ := (h.placement.table pid f).1 hp
    simp only [hp] at hs
    split at hs
    · simp only [pure_def, next.injEq, Prod.mk.injEq] at hs
      exact hs.1 ▸ Moves.performs .refl
    · have hpin : (s.pages f).pinCount = 0 := by omega
      obtain ⟨s₂, hs₂, hclean⟩ := h.cleaned hf
      have hco : s₂.Coherent := Moves.coherent hs₂.moves h
      have hf₂ : f < s₂.poolSize := hs₂.same_poolSize ▸ hf
      have hid₂ : (s₂.pages f).id = some pid := by rw [hs₂.same_ids, hid]
      have hpin₂ : (s₂.pages f).pinCount = 0 := by rw [hs₂.same_pins, hpin]
      have hlru : f ∈ s₂.lruList :=
        (hco.placement.listed f hf₂ hpin₂).resolve_left (hco.placement.not_free hf₂ hid₂)
      simp only [updatePage_eq (hs₂.cleanFrame_eq hclean), pure_def, next.injEq, Prod.mk.injEq] at hs
      obtain ⟨rfl, -⟩ := hs
      refine Moves.performs (hs₂.moves.tail ?_)
      have hrel : Move s₂ (s₂.release f s₂.lruList true) := by
        refine .release hf₂ hid₂ hpin₂ hs₂.clean hco.placement.lru_nodup (fun _ _ => Iff.rfl) ?_
        simp [hlru]
      convert hrel using 1
      simp [release, Frame.unused, hs₂.clean, hpin₂]

/-- `clear_file_pages` takes the frames of the file out of the replacer as well. -/
theorem clearPages_moves {fd : Nat} {fs : List Nat}
    (hfs : ∀ f ∈ fs, f < s.poolSize) (hun : s.Unpinned fd)
    (hs : clearPages fd fs s = .next s') : Moves s s' := by
  induction fs generalizing s with
  | nil =>
    simp only [clearPages, pure_def, next.injEq] at hs
    exact hs ▸ .refl
  | cons f fs ih =>
    have hf := hfs f (by simp)
    have hrest : ∀ g ∈ fs, g < s.poolSize := fun g hg => hfs g (List.mem_cons_of_mem _ hg)
    unfold clearPages at hs
    cases hid : (s.pages f).id with
    | none =>
      simp only [hid] at hs
      exact ih h hrest hun hs
    | some pid =>
      simp only [hid] at hs
      split at hs
      · rename_i hfd
        obtain ⟨s₂, hs₂, hclean⟩ := h.cleaned hf
        have hco : s₂.Coherent := Moves.coherent hs₂.moves h
        have hf₂ : f < s₂.poolSize := hs₂.same_poolSize ▸ hf
        have hid₂ : (s₂.pages f).id = some pid := by rw [hs₂.same_ids, hid]
        have hpin₂ : (s₂.pages f).pinCount = 0 := by
          rw [hs₂.same_pins, hun f hf (by simp [Frame.ofFile, hid, hfd])]
        have hnotfree := hco.placement.not_free hf₂ hid₂
        have hnotdeleted : s₂.deleted f = false := by
          have hdel := hco.placement.deleted_iff f hf₂
          simp only [hnotfree, false_and, iff_false, Bool.not_eq_true] at hdel
          exact hdel
        have hrel : Move s₂ (s₂.dropFrame f) := by
          have hmove : Move s₂ (s₂.release f (s₂.lruList.erase f) false) := by
            refine .release hf₂ hid₂ hpin₂ hs₂.clean (hco.placement.lru_nodup.erase f) ?_ ?_
            · exact fun g hg => Coherent.mem_erase_others hco.placement.lru_nodup g hg
            · simp [hco.placement.lru_nodup.mem_erase_iff]
          convert hmove using 1
          simp only [release, dropFrame, ← hnotdeleted, update_eq_self]
        simp only [hs₂.cleanFrame_eq hclean] at hs
        have hun₂ : (s₂.dropFrame f).Unpinned fd := by
          intro g hg hfile
          by_cases hgf : g = f
          · subst hgf
            simp [dropFrame, Frame.unused]
          · simp only [dropFrame, update_of_ne hgf, Frame.ofFile, hs₂.same_ids] at hg hfile ⊢
            rw [hs₂.same_pins]
            exact hun g (hs₂.same_poolSize ▸ hg) hfile
        have hmoves : Moves s (s₂.dropFrame f) := hs₂.moves.tail hrel
        refine hmoves.trans (ih (Moves.coherent hmoves h) ?_ hun₂ hs)
        intro g hg
        have hlt := hrest g hg
        rw [← hs₂.same_poolSize] at hlt
        exact hlt
      · exact ih h hrest hun hs

theorem newPage_performs {tableId : Nat} (hopen : s.disk.fds tableId ≠ none)
    (hnone : s.pageTable { tableId := tableId, pageNo := s.disk.fd2pageno tableId } = none)
    {r : Option (PageId × Nat)} (hs : s.newPage tableId = .next (s', r)) : Performs s s' := by
  unfold newPage at hs
  cases hv : s.findVictimPage with
  | none =>
    simp only [hv, pure_def, next.injEq, Prod.mk.injEq] at hs
    exact hs.1 ▸ Moves.performs .refl
  | some v =>
    obtain ⟨f, s₁⟩ := v
    obtain ⟨hf, hpin, lruList, hlru, rfl⟩ := findVictimPage_some h.placement hv
    obtain ⟨file, hfile⟩ := Option.ne_none_iff_exists'.1 hopen
    have halloc : Move s { s with disk := (s.disk.allocatePage tableId).1 } := .allocate
    obtain ⟨s₂, s₃, hs₂, hupdate, hdisk, hversion, hassign, -⟩ :=
      (halloc.coherent h).updatePage_victim hf hlru
        { tableId := tableId, pageNo := s.disk.fd2pageno tableId }
    have hfile₂ : s₂.disk.fds tableId = some file := by
      rw [hs₂.same_fds]
      exact hfile
    have hver₃ : s₃.versionOf { tableId := tableId, pageNo := s.disk.fd2pageno tableId } =
        some (s₂.version file (s.disk.fd2pageno tableId)) := by
      simp [versionOf, hdisk, hversion, hfile₂]
    simp only [hv, DiskManager.allocatePage] at hs
    simp only [DiskManager.allocatePage] at hupdate
    simp only [hupdate, hver₃, hassign, pure_def, next.injEq, Prod.mk.injEq] at hs
    obtain ⟨rfl, -⟩ := hs
    -- the zeros of the new page are contents that it may have
    refine Moves.performs (.head halloc (hs₂.moves.trans
      ((Relation.ReflTransGen.single (.extend s₂ file (s.disk.fd2pageno tableId) 0)).tail ?_)))
    have hmove : Move (s₂.extended file (s.disk.fd2pageno tableId) 0)
        ((s₂.extended file (s.disk.fd2pageno tableId) 0).assign f
          { tableId := tableId, pageNo := s.disk.fd2pageno tableId } 0) := by
      refine .assign ?_ ?_ hs₂.clean ?_ hfile₂ ?_ (.inr ?_)
      · exact hs₂.same_poolSize ▸ hf
      · exact (hs₂.same_pins f).trans hpin
      · exact (congrFun hs₂.same_pageTable _).trans hnone
      · simp [extended, Version.has]
      · show s.disk.fd2pageno tableId < s₂.disk.fd2pageno tableId
        rw [hs₂.same_fd2pageno]
        simp [DiskManager.allocatePage]
    convert hmove using 1
    simp [assign, setVersion, extended, eraseEntry, hfile₂]

theorem writeData_performs {data : γ} (hs : s.writeData pid data = .next s') :
    Performs s s' := by
  unfold writeData at hs
  cases hp : s.pageTable pid with
  | none => simp [hp] at hs
  | some f =>
    obtain ⟨hf, hid⟩ := (h.placement.table pid f).1 hp
    obtain ⟨file, hfile, -⟩ := h.contents.owned f hf pid hid
    have hver : s.versionOf pid = some (s.version file pid.pageNo) := by simp [versionOf, hfile]
    simp only [hp, hver, bind_eq_next, await_eq_next, pure_def, next.injEq] at hs
    obtain ⟨-, -, rfl⟩ := hs
    refine Moves.performs ((Relation.ReflTransGen.single (.extend s file pid.pageNo data)).tail ?_)
    have hhas : ((s.extended file pid.pageNo data).version file pid.pageNo).has data := by
      simp [extended, Version.has]
    have hmove := Move.overwrite (s := s.extended file pid.pageNo data) (f := f) hid hfile hhas
    simpa [setPage, setVersion, extended, hfile] using hmove

end

end StorageBufferPoolManager

end StoragePool
