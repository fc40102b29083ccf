import HybridCloud.BufferPool.Proofs.OwnerNodeSteps
import HybridCloud.Lib.Counting

/-!
# The threads behind the local locks of a page's owner

What a thread of the owner has taken can be read off its stage. `LockInv` says that a
`LocalPageLock` counts the threads that have taken it: a writer is alone, the mutex has one holder,
and a page that is locked is not evicted.
-/

namespace BufferPool

open Outcome Storage Function Counting

variable {stage : Stage}

namespace Stage

/-- The thread has the mutex of its page. -/
def inMutex : Stage → Bool
  | .idle | .holding _ | .logged _ _ | .done _ _ | .left => false
  | _ => true

/-- The thread is counted in the lock word. -/
def hasLock : Stage → Bool
  | .idle | .left => false
  | _ => true

/-- The page for which the thread has set `is_evicting`. -/
def evicts : Stage → Option PageId
  | .won _ _ v | .begun _ _ v | .lost _ v | .chosen _ _ v | .pinned _ _ v | .replaced _ v => some v
  | _ => none

/-- The frame that the thread has chosen in `tryVictim`, before `endVictim`. -/
def flags : Stage → Option FrameId
  | .picked _ f | .read _ f _ | .giveUp _ f | .won _ f _ => some f
  | _ => none

/-- The frame that the thread is going to give to its page, after `endVictim`. -/
def takes : Stage → Option FrameId
  | .begun _ f _ | .chosen _ f _ | .pinned _ f _ => some f
  | _ => none

/-- The frame that the thread has taken from a free list. -/
def reserves : Stage → Option FrameId
  | .reserved _ f => some f
  | _ => none

/-- The victim and its frame. -/
def victim : Stage → Option (FrameId × PageId)
  | .read _ f v | .won _ f v | .begun _ f v | .chosen _ f v | .pinned _ f v => some (f, v)
  | _ => none

/-- The page as storage has sent it, before it is in the pool. -/
def image : Stage → Option Page
  | .checking image | .reserved image _ | .choosing image | .probing image _ _ | .picked image _
  | .read image _ _ | .giveUp image _ | .won image _ _ | .begun image _ _ | .lost image _
  | .chosen image _ _ | .pinned image _ _ => some image
  | _ => none

/-- The page is to be put into a frame. -/
def brings : Stage → Bool
  | .fetching _ => true
  | stage => stage.image.isSome

/-- The frame in which the page is. -/
def frame : Stage → Option FrameId
  | .replaced f _ | .found f | .holding f | .logged f _ | .done f _ => some f
  | _ => none

theorem inMutex_of_brings (h : stage.brings = true) : stage.inMutex = true := by
  cases stage <;> first | rfl | cases h

theorem brings_of_image {image : Page} (h : stage.image = some image) : stage.brings = true := by
  cases stage <;> first | rfl | cases h

theorem hasLock_of_inMutex (h : stage.inMutex = true) : stage.hasLock = true := by
  cases stage <;> first | rfl | cases h

variable {f : FrameId}

theorem hasLock_of_frame (h : stage.frame = some f) : stage.hasLock = true := by
  cases stage <;> first | rfl | cases h

theorem evicts_of_takes (h : stage.takes = some f) :
    ∃ v, stage.victim = some (f, v) ∧ stage.evicts = some v := by
  cases stage <;> cases h <;> exact ⟨_, rfl, rfl⟩

theorem flags_or_takes_of_victim {v : PageId} (h : stage.victim = some (f, v)) :
    stage.flags = some f ∨ stage.takes = some f := by
  cases stage <;> cases h <;> first | exact .inl rfl | exact .inr rfl

end Stage

namespace Thread

/-- The thread has the mutex of `p`. -/
def inMutex (p : PageId) (t : Thread) : Bool := t.page = p && t.stage.inMutex

/-- The thread reads `p`. -/
def reads (p : PageId) (t : Thread) : Bool := t.page = p && t.stage.hasLock && !t.visit.exclusive

/-- The thread writes `p`. -/
def writes (p : PageId) (t : Thread) : Bool := t.page = p && t.stage.hasLock && t.visit.exclusive

/-- The thread evicts `p`. -/
def evicts (p : PageId) (t : Thread) : Bool := t.stage.evicts = some p

/-- What the lock of page `p` has to do with the thread. -/
def view (p : PageId) (t : Thread) : Bool × Bool × Bool × Bool :=
  (t.inMutex p, t.reads p, t.writes p, t.evicts p)

variable {t : Thread}

theorem view_evicts (hmutex : stage.inMutex = t.stage.inMutex)
    (hlock : stage.hasLock = t.stage.hasLock) (p : PageId) : view p { t with stage := stage } =
      (t.inMutex p, t.reads p, t.writes p, decide (stage.evicts = some p)) := by
  unfold view inMutex reads writes evicts page
  rw [hmutex, hlock]

theorem view_setStage (hmutex : stage.inMutex = t.stage.inMutex)
    (hlock : stage.hasLock = t.stage.hasLock) (hevicts : stage.evicts = t.stage.evicts)
    (p : PageId) : view p { t with stage := stage } = view p t := by
  unfold view inMutex reads writes evicts page
  rw [hmutex, hlock, hevicts]

theorem view_of_ne {t' : Thread} {p : PageId} (hpage : t'.page = t.page) (hp : t.page ≠ p)
    (hevicts : t.stage.evicts = some p ↔ t'.stage.evicts = some p) : view p t' = view p t := by
  simp [view, inMutex, reads, writes, evicts, hpage, hp, hevicts]

end Thread

/-- The lock of `p` says what the threads do with `p`. -/
structure LockInv (threads : List Thread) (p : PageId) (l : LocalPageLock) : Prop where
  mutex : threads.countP (Thread.inMutex p) = l.mutex.held.toNat
  word : l.lock = if threads.countP (Thread.writes p) = 0 then threads.countP (Thread.reads p)
    else GPLM.EXCLUSIVE_LOCKED
  alone : threads.countP (Thread.writes p) = 0 ∨
    threads.countP (Thread.writes p) = 1 ∧ threads.countP (Thread.reads p) = 0
  evicting : threads.countP (Thread.evicts p) = l.isEvicting.toNat
  idle : l.isEvicting = true → l.lock = 0

variable {e : Bool}

namespace LockInv

variable {threads : List Thread} {p : PageId} {l l' : LocalPageLock} {i j : Nat} {t t' x : Thread}

theorem congr {threads' : List Thread} (h : LockInv threads p l)
    (mutex : threads'.countP (Thread.inMutex p) = threads.countP (Thread.inMutex p))
    (reads : threads'.countP (Thread.reads p) = threads.countP (Thread.reads p))
    (writes : threads'.countP (Thread.writes p) = threads.countP (Thread.writes p))
    (evicts : threads'.countP (Thread.evicts p) = threads.countP (Thread.evicts p))
    (held : l'.mutex.held = l.mutex.held) (lock : l'.lock = l.lock)
    (evicting : l'.isEvicting = l.isEvicting) : LockInv threads' p l' := by
  refine ⟨?_, ?_, ?_, ?_, ?_⟩
  · rw [mutex, held]
    exact h.mutex
  · rw [lock, reads, writes]
    exact h.word
  · rw [reads, writes]
    exact h.alone
  · rw [evicts, evicting]
    exact h.evicting
  · rw [lock, evicting]
    exact h.idle

theorem set (h : LockInv threads p l) (hi : threads[i]? = some t)
    (view : t'.view p = t.view p) (held : l'.mutex.held = l.mutex.held) (lock : l'.lock = l.lock)
    (evicting : l'.isEvicting = l.isEvicting) : LockInv (threads.set i t') p l' := by
  simp only [Thread.view, Prod.mk.injEq] at view
  obtain ⟨hmutex, hreads, hwrites, hevicts⟩ := view
  exact h.congr (countP_set_eq hi hmutex) (countP_set_eq hi hreads)
    (countP_set_eq hi hwrites) (countP_set_eq hi hevicts) held lock evicting

variable {r w : Bool}

theorem counts (hi : threads[i]? = some t) {m m' r' w' e' : Bool} (view : t.view p = (m, r, w, e))
    (view' : t'.view p = (m', r', w', e')) :
    (threads.set i t').countP (Thread.inMutex p) + m.toNat =
        threads.countP (Thread.inMutex p) + m'.toNat ∧
      (threads.set i t').countP (Thread.reads p) + r.toNat =
        threads.countP (Thread.reads p) + r'.toNat ∧
      (threads.set i t').countP (Thread.writes p) + w.toNat =
        threads.countP (Thread.writes p) + w'.toNat ∧
      (threads.set i t').countP (Thread.evicts p) + e.toNat =
        threads.countP (Thread.evicts p) + e'.toNat := by
  obtain ⟨rfl, rfl, rfl, rfl⟩ := view
  obtain ⟨rfl, rfl, rfl, rfl⟩ := view'
  exact ⟨countP_set_add _ hi _, countP_set_add _ hi _,
    countP_set_add _ hi _, countP_set_add _ hi _⟩

section

variable (h : LockInv threads p l) (hi : threads[i]? = some t)
include h hi

theorem lockShared
    (view : t.view p = (false, false, false, false)) (view' : t'.view p = (true, true, false, false))
    (taken : l.lockShared = .next l') : LockInv (threads.set i t') p l' := by
  obtain ⟨hfree, hev, hlt, rfl⟩ := LocalPageLock.lockShared_eq_next taken
  obtain ⟨hmutex, hreads, hwrites, hevicts⟩ := counts hi view view'
  simp only [Bool.toNat_true, Bool.toNat_false, Nat.add_zero] at hmutex hreads hwrites hevicts
  have hm := h.mutex
  have hword := h.word
  rw [hfree] at hm
  have hnone : threads.countP (Thread.writes p) = 0 := by
    by_contra hne
    rw [if_neg hne] at hword
    omega
  rw [if_pos hnone] at hword
  refine ⟨hmutex.trans (congrArg (· + 1) hm), ?_, .inl (hwrites.trans hnone),
    hevicts.trans h.evicting, fun hev' => ?_⟩
  · rw [if_pos (hwrites.trans hnone), hreads, ← hword]
  · rw [hev] at hev'
    cases hev'

theorem lockExclusive
    (view : t.view p = (false, false, false, false)) (view' : t'.view p = (true, false, true, false))
    (taken : l.lockExclusive = .next l') : LockInv (threads.set i t') p l' := by
  obtain ⟨hfree, hev, hzero, rfl⟩ := LocalPageLock.lockExclusive_eq_next taken
  obtain ⟨hmutex, hreads, hwrites, hevicts⟩ := counts hi view view'
  simp only [Bool.toNat_true, Bool.toNat_false, Nat.add_zero] at hmutex hreads hwrites hevicts
  have hm := h.mutex
  have hword := h.word
  rw [hfree] at hm
  have hnone : threads.countP (Thread.writes p) = 0 := by
    by_contra hne
    rw [if_neg hne, hzero] at hword
    cases hword
  rw [if_pos hnone, hzero] at hword
  rw [hnone] at hwrites
  refine ⟨hmutex.trans (congrArg (· + 1) hm), ?_, .inr ⟨hwrites, hreads.trans hword.symm⟩,
    hevicts.trans h.evicting, fun hev' => ?_⟩
  · rw [hwrites]
    rfl
  · rw [hev] at hev'
    cases hev'

theorem unlockMtx (view : t.view p = (true, r, w, e)) (view' : t'.view p = (false, r, w, e)) :
    LockInv (threads.set i t') p l.unlockMtx := by
  obtain ⟨hmutex, hreads, hwrites, hevicts⟩ := counts hi view view'
  have hm := h.mutex
  have hle := Bool.toNat_le l.mutex.held
  simp only [Bool.toNat_true, Bool.toNat_false] at hmutex
  have hreads' := Nat.add_right_cancel hreads
  have hwrites' := Nat.add_right_cancel hwrites
  refine ⟨?_, ?_, ?_, (Nat.add_right_cancel hevicts).trans h.evicting, h.idle⟩
  · show _ = 0
    omega
  · rw [hreads', hwrites']
    exact h.word
  · rw [hreads', hwrites']
    exact h.alone

theorem unlockShared (view : t.view p = (false, true, false, false))
    (view' : t'.view p = (false, false, false, false)) (taken : l.unlockShared = .next l') :
    LockInv (threads.set i t') p l'.unlockMtx := by
  obtain ⟨-, hpos, -, heq⟩ := LocalPageLock.unlockShared_eq_next taken
  obtain ⟨hmutex, hreads, hwrites, hevicts⟩ := counts hi view view'
  simp only [Bool.toNat_true, Bool.toNat_false, Nat.add_zero] at hmutex hreads hwrites hevicts
  have hnone : threads.countP (Thread.writes p) = 0 := by
    rcases h.alone with hzero | ⟨-, hzero⟩
    · exact hzero
    · omega
  have hword := h.word
  rw [if_pos hnone] at hword
  rw [heq]
  refine ⟨hmutex.trans h.mutex, ?_, .inl (hwrites.trans hnone), hevicts.trans h.evicting,
    fun hev => ?_⟩
  · rw [if_pos (hwrites.trans hnone)]
    show l.lock - 1 = _
    omega
  · exact absurd (h.idle hev) (Nat.pos_iff_ne_zero.1 hpos)

theorem unlockExclusive (view : t.view p = (false, false, true, false))
    (view' : t'.view p = (false, false, false, false)) (taken : l.unlockExclusive = .next l') :
    LockInv (threads.set i t') p l'.unlockMtx := by
  obtain ⟨-, hlock, -, heq⟩ := LocalPageLock.unlockExclusive_eq_next taken
  obtain ⟨hmutex, hreads, hwrites, hevicts⟩ := counts hi view view'
  simp only [Bool.toNat_true, Bool.toNat_false, Nat.add_zero] at hmutex hreads hwrites hevicts
  have hnone : threads.countP (Thread.reads p) = 0 ∧ threads.countP (Thread.writes p) = 1 := by
    rcases h.alone with hzero | ⟨hone, hzero⟩
    · omega
    · exact ⟨hzero, hone⟩
  have hgone : (threads.set i t').countP (Thread.writes p) = 0 := by omega
  rw [heq]
  refine ⟨hmutex.trans h.mutex, ?_, .inl hgone, hevicts.trans h.evicting, fun _ => rfl⟩
  rw [if_pos hgone, hreads, hnone.1]

theorem setEvicting {m : Bool}
    (view : t.view p = (m, r, w, l.isEvicting)) (view' : t'.view p = (m, r, w, e))
    (idle : l.lock = 0) : LockInv (threads.set i t') p { l with isEvicting := e } := by
  obtain ⟨hmutex, hreads, hwrites, hevicts⟩ := counts hi view view'
  have hreads' := Nat.add_right_cancel hreads
  have hwrites' := Nat.add_right_cancel hwrites
  have hev := h.evicting
  refine ⟨(Nat.add_right_cancel hmutex).trans h.mutex, ?_, ?_, ?_, fun _ => idle⟩
  · rw [hreads', hwrites']
    exact h.word
  · rw [hreads', hwrites']
    exact h.alone
  · show _ = e.toNat
    omega

theorem lock_ne_zero (hp : t.page = p)
    (hlock : t.stage.hasLock = true) : l.lock ≠ 0 := by
  have hmem := List.mem_of_getElem? hi
  rw [h.word]
  split
  · rename_i hzero
    have hwrites : ¬ t.writes p = true := List.countP_eq_zero.1 hzero t hmem
    have hreads : t.reads p = true := by
      simpa [Thread.writes, Thread.reads, hp, hlock] using hwrites
    exact Nat.pos_iff_ne_zero.1 (List.countP_pos_iff.2 ⟨t, hmem, hreads⟩)
  · simp [GPLM.EXCLUSIVE_LOCKED]

theorem not_evicts (hp : t.page = p)
    (hlock : t.stage.hasLock = true) (hj : threads[j]? = some x) : x.stage.evicts ≠ some p := by
  intro hevicts
  have hpos : 0 < threads.countP (Thread.evicts p) :=
    List.countP_pos_iff.2 ⟨x, List.mem_of_getElem? hj, by simpa [Thread.evicts] using hevicts⟩
  rw [h.evicting] at hpos
  cases hev : l.isEvicting with
  | false =>
    rw [hev] at hpos
    exact absurd hpos (Nat.lt_irrefl 0)
  | true => exact h.lock_ne_zero hi hp hlock (h.idle hev)

theorem mutex_unique (hp : t.page = p)
    (hm : t.stage.inMutex = true) (hj : threads[j]? = some x) (hp' : x.page = p)
    (hm' : x.stage.inMutex = true) : j = i := by
  have hle : threads.countP (Thread.inMutex p) ≤ 1 := h.mutex ▸ Bool.toNat_le _
  exact eq_of_countP_le_one hle hj hi (by simp [Thread.inMutex, hp', hm'])
    (by simp [Thread.inMutex, hp, hm])

theorem writer_unique (hp : t.page = p)
    (hlock : t.stage.hasLock = true) (hx : t.visit.exclusive = true) (hj : threads[j]? = some x)
    (hp' : x.page = p) (hlock' : x.stage.hasLock = true) : j = i := by
  have hwrites : t.writes p = true := by simp [Thread.writes, hp, hlock, hx]
  have hpos : 0 < threads.countP (Thread.writes p) :=
    List.countP_pos_iff.2 ⟨t, List.mem_of_getElem? hi, hwrites⟩
  rcases h.alone with hzero | ⟨hone, hnone⟩
  · omega
  · have hnot : ¬ x.reads p = true := List.countP_eq_zero.1 hnone x (List.mem_of_getElem? hj)
    have hwrites' : x.writes p = true := by
      simpa [Thread.writes, Thread.reads, hp', hlock'] using hnot
    exact eq_of_countP_le_one hone.le hj hi hwrites' hwrites

end

end LockInv

namespace OwnerNode

variable {tab : Dtx.Table} {me n : Nat} {s s' : OwnerNode} {i j : Nat} {t x : Thread}

/-- All locks do. -/
def LocksInv (s : OwnerNode) : Prop := ∀ p, LockInv s.threads p (s.locks p)

theorem locksInv_init {image : Page} {stored : PageId → Nat} {currentLLSN : Nat} :
    (init n image stored currentLLSN).LocksInv := fun _ => ⟨rfl, rfl, .inl rfl, rfl, nofun⟩

theorem LocksInv.setStage (h : s.LocksInv) (hi : s.threads[i]? = some t)
    (threads : s'.threads = s.threads.set i { t with stage := stage })
    (locks : s'.locks = s.locks) (hmutex : stage.inMutex = t.stage.inMutex)
    (hlock : stage.hasLock = t.stage.hasLock) (hevicts : stage.evicts = t.stage.evicts) :
    s'.LocksInv := by
  intro p
  rw [threads, locks]
  exact (h p).set hi (Thread.view_setStage hmutex hlock hevicts p) rfl rfl rfl

theorem LocksInv.setLock (h : s.LocksInv) (hi : s.threads[i]? = some t) {t' : Thread} {q : PageId}
    {l : LocalPageLock} (threads : s'.threads = s.threads.set i t')
    (locks : s'.locks = update s.locks q l)
    (hother : ∀ p, p ≠ q → t'.view p = t.view p) (hself : LockInv (s.threads.set i t') q l) :
    s'.LocksInv := by
  intro p
  rw [threads, locks]
  by_cases hp : p = q
  · subst hp
    rw [update_self]
    exact hself
  · rw [update_of_ne hp]
    exact (h p).set hi (hother p hp) rfl rfl rfl

theorem LocksInv.setEvicting (h : s.LocksInv) (hi : s.threads[i]? = some t) {v : PageId}
    (threads : s'.threads = s.threads.set i { t with stage := stage })
    (locks : s'.locks = update s.locks v { s.locks v with isEvicting := e })
    (hmutex : stage.inMutex = t.stage.inMutex) (hlock : stage.hasLock = t.stage.hasLock)
    (hother : ∀ p, p ≠ v → (stage.evicts = some p ↔ t.stage.evicts = some p))
    (hold : decide (t.stage.evicts = some v) = (s.locks v).isEvicting)
    (hnew : decide (stage.evicts = some v) = e) (idle : (s.locks v).lock = 0) : s'.LocksInv := by
  refine h.setLock hi threads locks (fun p hp => ?_)
    ((h v).setEvicting (m := t.inMutex v) (r := t.reads v) (w := t.writes v) hi ?_ ?_ idle)
  · rw [Thread.view_evicts hmutex hlock, decide_eq_decide.2 (hother p hp)]
    rfl
  · rw [← hold]
    rfl
  · rw [Thread.view_evicts hmutex hlock, hnew]

theorem view_self {p : PageId} (hpage : t.page = p) (hstage : t.stage = stage)
    (hevicts : stage.evicts = none) :
    t.view p = (stage.inMutex, stage.hasLock && !t.visit.exclusive,
      stage.hasLock && t.visit.exclusive, false) := by
  simp [Thread.view, Thread.inMutex, Thread.reads, Thread.writes, Thread.evicts, hpage, hstage,
    hevicts]

/-- Every step keeps the lock counts. -/
theorem LocksInv.step (h : s.LocksInv) (hs : Step me s s') : s'.LocksInv := by
  cases hs with
  | call v vs =>
    intro p
    let new : Thread := { visit := v, rest := vs, stage := .idle }
    have hnew : ∀ P : Thread → Bool, P new = false →
        (s.threads ++ [new]).countP P = s.threads.countP P := by
      intro P hP
      rw [List.countP_append, List.countP_singleton, hP]
      rfl
    exact (h p).congr (hnew _ (Bool.and_false _)) (hnew _ (by simp [Thread.reads, new, Stage.hasLock]))
      (hnew _ (by simp [Thread.writes, new, Stage.hasLock])) (hnew _ rfl) rfl rfl rfl
  | skip => exact h
  | addMetadataLog => exact h
  | @lockShared i t l hi stage shared taken =>
    refine h.setLock hi rfl rfl (fun p hp => Thread.view_of_ne rfl (Ne.symm hp) ?_)
      ((h t.page).lockShared hi (view_self rfl stage rfl) ((view_self rfl rfl rfl).trans ?_) taken)
    · simp [stage, Stage.evicts]
    · simp [shared, Stage.inMutex, Stage.hasLock]
  | @lockExclusive i t l hi stage exclusive taken =>
    refine h.setLock hi rfl rfl (fun p hp => Thread.view_of_ne rfl (Ne.symm hp) ?_)
      ((h t.page).lockExclusive hi (view_self rfl stage rfl) ((view_self rfl rfl rfl).trans ?_) taken)
    · simp [stage, Stage.evicts]
    · simp [exclusive, Stage.inMutex, Stage.hasLock]
  | @checkFree i t image pool frame hi stage taken =>
    cases frame <;>
      exact h.setStage hi rfl rfl (by rw [stage]; rfl) (by rw [stage]; rfl) (by rw [stage]; rfl)
  | @work i t f st lsn hi stage exclusive worked =>
    cases lsn <;>
      exact h.setStage hi rfl rfl (by rw [stage]; rfl) (by rw [stage]; rfl) (by rw [stage]; rfl)
  | @win i t image f victim l hi stage taken =>
    obtain ⟨-, hev, hzero, rfl⟩ := LocalPageLock.tryBeginEvict_eq_next taken
    exact h.setEvicting hi rfl rfl (by rw [stage]; rfl) (by rw [stage]; rfl)
      (fun p hp => by simp [stage, Stage.evicts, Ne.symm hp]) (by simp [stage, Stage.evicts, hev])
      (by simp [Stage.evicts]) hzero
  | @retry i t image victim l hi stage taken | @endEvict i t f victim l hi stage taken =>
    obtain ⟨-, hev, rfl⟩ := LocalPageLock.endEvict_eq_next taken
    exact h.setEvicting hi rfl rfl (by rw [stage]; rfl) (by rw [stage]; rfl)
      (fun p hp => by simp [stage, Stage.evicts, Ne.symm hp]) (by simp [stage, Stage.evicts, hev])
      (by simp [Stage.evicts]) ((h victim).idle hev)
  | @unlockMtx i t f hi stage =>
    refine h.setLock hi rfl rfl (fun p hp => Thread.view_of_ne rfl (Ne.symm hp) ?_)
      ((h t.page).unlockMtx hi (view_self rfl stage rfl) (view_self rfl rfl rfl))
    simp [stage, Stage.evicts]
  | @setNewestLsn i t f lsn hi stage =>
    refine h.setLock hi rfl rfl (fun p _ => Thread.view_setStage ?_ ?_ ?_ p)
      ((h t.page).set hi (Thread.view_setStage ?_ ?_ ?_ _) rfl rfl rfl) <;> rw [stage] <;> rfl
  | @releaseShared i t f stop r l pool hi stage shared taken unpin =>
    refine h.setLock hi rfl rfl (fun p hp => Thread.view_of_ne rfl (Ne.symm hp) ?_)
      ((h t.page).unlockShared hi ((view_self rfl stage rfl).trans ?_) (view_self rfl rfl rfl) taken)
    · simp [stage, Stage.evicts]
    · simp [shared, Stage.inMutex, Stage.hasLock]
  | @releaseExclusive i t f stop r l pool hi stage exclusive taken unpin =>
    refine h.setLock hi rfl rfl (fun p hp => Thread.view_of_ne rfl (Ne.symm hp) ?_)
      ((h t.page).unlockExclusive hi ((view_self rfl stage rfl).trans ?_) (view_self rfl rfl rfl) taken)
    · simp [stage, Stage.evicts]
    · simp [exclusive, Stage.inMutex, Stage.hasLock]
  | @next i t v vs hi stage =>
    intro p
    refine (h p).set hi ?_ rfl rfl rfl
    simp [Thread.view, Thread.inMutex, Thread.reads, Thread.writes, Thread.evicts, stage,
      Stage.inMutex, Stage.hasLock, Stage.evicts]
  | _ hi stage =>
    exact h.setStage hi rfl rfl (by rw [stage]; rfl) (by rw [stage]; rfl) (by rw [stage]; rfl)

end OwnerNode

end BufferPool
