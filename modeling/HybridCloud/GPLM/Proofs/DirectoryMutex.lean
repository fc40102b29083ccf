import HybridCloud.GPLM.Proofs.DirectoryView

/-!
# The mutexes of a directory

Whatever the state of the directory, a call that completes ends with both mutexes free, and it
unlocks the mutex of the lock exactly as often as it locks it. The mutex of the validity table is
unlocked once too often by `BufferReleaseUnlock` when the evicting node was the newest one and
another node takes its place (`exec_mutexes`).
-/

namespace GPLM.Directory

open Outcome LRGlobalPageLock

variable {N : Nat} {d d' : Directory N} {n : NodeId N}

variable {msgs : List (DirMsg N)}

theorem setComputenodePending_mutex {x : Bool}
    (h : d.setComputenodePending n x = .next (d', msgs)) (hv : d.valid.mutex.held = false) :
    d'.valid = d.valid ∧ d'.gl.mutex = d.gl.mutex.unlock := by
  cases x with
  | true =>
    simp only [setComputenodePending, ite_true, bind_eq_next, pure_def, next.injEq,
      Prod.mk.injEq] at h
    obtain ⟨-, -, _, rfl, -, -, rfl, -⟩ := h
    exact ⟨rfl, rfl⟩
  | false =>
    simp only [setComputenodePending, Bool.false_eq_true, ite_false, isValid_of_free hv,
      getNewestNodeID_of_free hv, next_bind] at h
    split at h <;> simp only [bind_eq_next, pure_def, next.injEq, Prod.mk.injEq] at h
    · obtain ⟨-, -, -, -, rfl, -⟩ := h
      exact ⟨rfl, rfl⟩
    · obtain ⟨-, -, _, rfl, -, -, rfl, -⟩ := h
      exact ⟨rfl, rfl⟩

theorem lockShared_mutex (hg : d.gl.mutex.held = false) (hv : d.valid.mutex.held = false)
    {ok : Bool} (h : d.lockShared n = .next (d', msgs, ok)) :
    d'.valid = d.valid ∧
      d'.gl.mutex = if ok then { d.gl.mutex with held := true } else d.gl.mutex := by
  simp only [lockShared, mutexLock_of_free hg, next_bind] at h
  split at h
  · simp only [addHoldLockNode, bind_eq_next, pure_def, next.injEq,
      Prod.mk.injEq] at h
    obtain ⟨gl, ⟨-, -, rfl⟩, -, -, -, -, rfl, -, rfl⟩ := h
    exact ⟨rfl, rfl⟩
  · split at h
    · simp only [bind_eq_next, pure_def, next.injEq, Prod.mk.injEq] at h
      obtain ⟨-, -, -, -, ⟨d₁, msgs₁⟩, hpend, rfl, -, rfl⟩ := h
      obtain ⟨hvalid, hmutex⟩ := setComputenodePending_mutex hpend hv
      exact ⟨hvalid, hmutex.trans (Mutex.unlock_of_relock hg)⟩
    · simp only [bind_eq_next, pure_def, next.injEq, Prod.mk.injEq] at h
      obtain ⟨-, -, -, -, rfl, -, rfl⟩ := h
      exact ⟨rfl, Mutex.unlock_of_relock hg⟩

theorem lockExclusive_mutex (hg : d.gl.mutex.held = false) (hv : d.valid.mutex.held = false)
    {ok : Bool} (h : d.lockExclusive n = .next (d', msgs, ok)) :
    d'.valid = d.valid ∧
      d'.gl.mutex = if ok then { d.gl.mutex with held := true } else d.gl.mutex := by
  simp only [lockExclusive, mutexLock_of_free hg, next_bind] at h
  split at h
  · simp only [bind_eq_next] at h
    obtain ⟨-, -, -, -, h⟩ := h
    split at h
    · obtain ⟨rfl, -, rfl⟩ := h
      exact ⟨rfl, rfl⟩
    · split at h <;> simp only [bind_eq_next, pure_def, next.injEq, Prod.mk.injEq] at h
      · obtain ⟨-, -, -, -, ⟨d₁, msgs₁⟩, hpend, rfl, -, rfl⟩ := h
        obtain ⟨hvalid, hmutex⟩ := setComputenodePending_mutex hpend hv
        exact ⟨hvalid, hmutex.trans (Mutex.unlock_of_relock hg)⟩
      · obtain ⟨⟨d₁, msgs₁⟩, hpend, rfl, -, rfl⟩ := h
        obtain ⟨hvalid, hmutex⟩ := setComputenodePending_mutex hpend hv
        exact ⟨hvalid, hmutex.trans (Mutex.unlock_of_relock hg)⟩
  · split at h
    · simp only [addHoldLockNode, bind_eq_next, pure_def, next.injEq,
        Prod.mk.injEq] at h
      obtain ⟨-, -, -, -, gl, ⟨-, -, rfl⟩, -, -, -, -, rfl, -, rfl⟩ := h
      exact ⟨rfl, rfl⟩
    · simp only [bind_eq_next, pure_def, next.injEq, Prod.mk.injEq] at h
      obtain ⟨-, -, -, -, rfl, -, rfl⟩ := h
      exact ⟨rfl, Mutex.unlock_of_relock hg⟩

variable {reply : LockReply N}

theorem replyGranted_mutex (hv : d.valid.mutex.held = false) {gm : Mutex} (hgm : gm.held = false)
    (hg : d.gl.mutex = { gm with held := true }) (h : d.replyGranted n = .next (d', reply)) :
    d'.gl.mutex = AbsDirectory.mutexAfter gm reply ∧ d'.valid.mutex = d.valid.mutex := by
  have hunlock : d.gl.mutexUnlock.mutex = gm := by
    rw [mutexUnlock, hg, Mutex.unlock_of_relock hgm]
  simp only [replyGranted, getValid_of_free hv, next_bind] at h
  by_cases hn : d.valid.nodeHasNewestPageStatus n
  · simp only [hn, ite_true, Bool.false_eq_true, ite_false, pure_def, next.injEq,
      Prod.mk.injEq] at h
    obtain ⟨rfl, rfl⟩ := h
    exact ⟨hunlock, rfl⟩
  · cases hw : d.valid.newestNode with
    | none =>
      simp [hn, hw] at h
      obtain ⟨rfl, rfl⟩ := h
      exact ⟨hunlock, rfl⟩
    | some m =>
      simp [hn, hw] at h
      obtain ⟨rfl, rfl⟩ := h
      exact ⟨hg, rfl⟩

variable {g : LRGlobalPageLock N}

theorem grantReaders_mutex {rs : List (LRRequest N)} {r : LRGlobalPageLock N × List (LRRequest N)}
    (h : grantReaders rs g = .next r) : r.1.mutex = g.mutex := by
  induction rs generalizing g r with
  | nil =>
    cases h
    rfl
  | cons q rs ih =>
    simp only [grantReaders] at h
    split at h
    · simp only [addHoldLockNode, bind_eq_next, pure_def, next.injEq] at h
      obtain ⟨g₁, ⟨-, -, rfl⟩, hrest⟩ := h
      exact (ih hrest :)
    · simp only [bind_eq_next, pure_def, next.injEq] at h
      obtain ⟨⟨g₁, kept⟩, hrest, rfl⟩ := h
      exact (ih hrest :)

theorem unlockAnyNoBlock_mutex {g' : LRGlobalPageLock N} (h : g.unlockAnyNoBlock n = .next g') :
    g'.mutex = g.mutex := by
  simp only [unlockAnyNoBlock] at h
  split at h <;> simp only [bind_eq_next, cassert_eq_next, pure_def] at h
  · obtain ⟨-, -, -, -, hg⟩ := h
    cases hg
    rfl
  · obtain ⟨-, -, -, -, -, -, hg⟩ := h
    cases hg
    rfl

theorem transferControl_mutex {r : LRGlobalPageLock N × Bool} (h : g.transferControl = .next r) :
    r.1.mutex = g.mutex := by
  simp only [transferControl, bind_eq_next, cassert_eq_next] at h
  obtain ⟨-, -, h⟩ := h
  split at h
  · simp only [bind_eq_next, pure_def] at h
    obtain ⟨-, -, -, -, hr⟩ := h
    cases hr
    rfl
  · split at h
    · simp only [bind_eq_next] at h
      obtain ⟨-, -, -, -, -, -, -, -, h⟩ := h
      split at h
      · simp only [addHoldLockNode, bind_eq_next, pure_def] at h
        obtain ⟨g₁, ⟨-, -, hg₁⟩, hr⟩ := h
        cases hg₁
        cases hr
        rfl
      · simp only [addHoldLockNode, bind_eq_next, pure_def] at h
        obtain ⟨g₁, ⟨-, -, hg₁⟩, h⟩ := h
        cases hg₁
        split at h <;> simp only [bind_eq_next, next.injEq] at h
        · obtain ⟨⟨g₂, kept⟩, hreaders, -, -, rfl⟩ := h
          exact (grantReaders_mutex hreaders :)
        · obtain ⟨_, rfl, -, -, rfl⟩ := h
          rfl
    · simp only [bind_eq_next] at h
      obtain ⟨-, -, -, -, h⟩ := h
      split at h <;> cases h <;> rfl

theorem transferPending_mutex (h : d.transferPending = .next (d', msgs))
    (hv : d.valid.mutex.held = false) : d'.valid = d.valid ∧ d'.gl.mutex = d.gl.mutex.unlock := by
  simp only [transferPending] at h
  split at h
  · cases h
    exact ⟨rfl, rfl⟩
  · split at h
    · cases h
      exact ⟨rfl, rfl⟩
    · split at h
      · simp only [bind_eq_next] at h
        obtain ⟨-, -, h⟩ := h
        split at h
        · simp only [bind_eq_next] at h
          obtain ⟨-, -, -, -, hpend⟩ := h
          exact (setComputenodePending_mutex hpend hv :)
        · exact (setComputenodePending_mutex h hv :)
      · simp only [bind_eq_next] at h
        obtain ⟨-, -, -, -, -, -, -, -, hpend⟩ := h
        exact (setComputenodePending_mutex hpend hv :)

theorem lrpsLock_mutex (hg : d.gl.mutex.held = false) (hv : d.valid.mutex.held = false)
    (h : d.lrpsLock n = .next (d', msgs, reply)) :
    d'.gl.mutex = AbsDirectory.mutexAfter d.gl.mutex reply ∧ d'.valid.mutex = d.valid.mutex := by
  simp only [lrpsLock, bind_eq_next] at h
  obtain ⟨⟨d₁, msgs₁, ok⟩, hlock, h⟩ := h
  obtain ⟨hvalid, hmutex⟩ := lockShared_mutex hg hv hlock
  cases ok with
  | false =>
    cases h
    exact ⟨hmutex, congrArg _ hvalid⟩
  | true =>
    simp only [ite_true, bind_eq_next, pure_def, next.injEq, Prod.mk.injEq] at h
    obtain ⟨⟨d₂, reply₂⟩, hreply, -, -, rfl, -, rfl⟩ := h
    rw [← hvalid] at hv ⊢
    exact replyGranted_mutex hv hg hmutex hreply

theorem lrpxLock_mutex (hg : d.gl.mutex.held = false) (hv : d.valid.mutex.held = false)
    (h : d.lrpxLock n = .next (d', msgs, reply)) :
    d'.gl.mutex = AbsDirectory.mutexAfter d.gl.mutex reply ∧ d'.valid.mutex = d.valid.mutex := by
  simp only [lrpxLock, bind_eq_next] at h
  obtain ⟨⟨d₁, msgs₁, ok⟩, hlock, h⟩ := h
  obtain ⟨hvalid, hmutex⟩ := lockExclusive_mutex hg hv hlock
  cases ok with
  | false =>
    cases h
    exact ⟨hmutex, congrArg _ hvalid⟩
  | true =>
    simp only [ite_true, bind_eq_next, pure_def, next.injEq, Prod.mk.injEq] at h
    obtain ⟨⟨d₂, reply₂⟩, hreply, rfl, -, rfl⟩ := h
    rw [← hvalid] at hv ⊢
    exact replyGranted_mutex hv hg hmutex hreply

theorem finish_mutex {gm : Mutex} (hgm : gm.held = false)
    (h : d.gl.mutex = AbsDirectory.mutexAfter gm reply) :
    (reply.finish d).gl.mutex = gm ∧ (reply.finish d).valid = d.valid := by
  cases reply with
  | pushFrom m =>
    refine ⟨?_, rfl⟩
    simp only [LockReply.finish, notifyPushPageDone, mutexUnlock, h,
      AbsDirectory.mutexAfter, Mutex.unlock_of_relock hgm]
  | _ => exact ⟨h, rfl⟩

theorem lrpAnyUnLock_mutex (hg : d.gl.mutex.held = false) (hv : d.valid.mutex.held = false)
    (h : d.lrpAnyUnLock n = .next (d', msgs)) :
    d'.gl.mutex = d.gl.mutex ∧ d'.valid.mutex = d.valid.mutex := by
  simp only [lrpAnyUnLock, unlockAny, mutexLock_of_free hg, next_bind,
    bind_eq_next] at h
  obtain ⟨g₁, hunlock, ⟨g₂, transfer⟩, hcontrol, h⟩ := h
  have hg₂ : g₂.mutex = { d.gl.mutex with held := true } :=
    (transferControl_mutex hcontrol).trans (unlockAnyNoBlock_mutex hunlock)
  cases transfer with
  | false =>
    simp only [Bool.false_eq_true, ite_false, releasePage_of_free hv, next_bind, pure_def] at h
    cases h
    refine ⟨?_, by rw [releasePageNoBlock_eq]; rfl⟩
    simp only [mutexUnlock, hg₂, Mutex.unlock_of_relock hg]
  | true =>
    simp only [ite_true, globalLock_of_free hv, next_bind] at h
    split at h
    · cases h
    · simp only [sendComputenodeLockSuccess, bind_eq_next, pure_def] at h
      obtain ⟨⟨d₁, granted⟩, ⟨-, -, hd₁⟩, ⟨d₂, pended⟩, hpending, hd⟩ := h
      cases hd₁
      cases hd
      simp only [foldl_setNodeStatusNoBlock, releasePageNoBlock_eq,
        GlobalValidInfo.setValidAndUpdateNewest, GlobalValidInfo.setStatus,
        GlobalValidInfo.unlock, Mutex.unlock_of_relock hv] at hpending
      obtain ⟨hvalid, hmutex⟩ := transferPending_mutex hpending hv
      refine ⟨?_, by rw [hvalid]⟩
      rw [hmutex]
      simp only [hg₂, Mutex.unlock_of_relock hg]

/-- When `BufferReleaseUnlock` unlocks the validity table twice: the node may evict the page, was the
newest one, and another node is still marked as having the page. -/
def Slips (d : Directory N) (n : NodeId N) : Prop :=
  n ∈ d.gl.holdLockNodes ∧ d.gl.isPending = false ∧ d.valid.newestNode = some n ∧
    ∃ m, m ≠ n ∧ d.valid.nodeHasNewestPageStatus m = true

instance : Decidable (d.Slips n) := by
  unfold Slips
  infer_instance

theorem hasAnyValid_setStatus_ne_none (v : GlobalValidInfo N) (n : NodeId N) :
    (v.setStatus n false).hasAnyValid ≠ none ↔
      ∃ m, m ≠ n ∧ v.nodeHasNewestPageStatus m = true := by
  rw [Option.ne_none_iff_isSome, GlobalValidInfo.hasAnyValid, List.find?_isSome]
  constructor
  · rintro ⟨m, -, hm⟩
    by_cases hmn : m = n
    · simp [GlobalValidInfo.setStatus, hmn] at hm
    · exact ⟨m, hmn, by simpa [GlobalValidInfo.setStatus, hmn] using hm⟩
  · rintro ⟨m, hmn, hm⟩
    exact ⟨m, List.mem_finRange m, by simpa [GlobalValidInfo.setStatus, hmn] using hm⟩

theorem bufferReleaseUnlock_mutex (hg : d.gl.mutex.held = false) (hv : d.valid.mutex.held = false)
    {lsn : Nat} {agree : Bool} (h : d.bufferReleaseUnlock n lsn = .next (d', agree)) :
    d'.gl.mutex = d.gl.mutex ∧ d'.valid.mutex.held = false ∧
      (d.Slips n → d'.valid.mutex.strays = d.valid.mutex.strays + 1) ∧
      (¬ d.Slips n → d'.valid.mutex.strays = d.valid.mutex.strays) := by
  simp only [bufferReleaseUnlock, mutexLock_of_free hg, next_bind,
    checkIsHoldNoBlock] at h
  split at h
  · rename_i hhold
    have hslip : ¬ d.Slips n := fun hs => by simp [hs.1] at hhold
    cases h
    exact ⟨Mutex.unlock_of_relock hg, hv, fun hs => absurd hs hslip, fun _ => rfl⟩
  rename_i hhold
  split at h
  · rename_i hpend
    have hslip : ¬ d.Slips n := fun hs => by simp [hs.2.1] at hpend
    cases h
    exact ⟨Mutex.unlock_of_relock hg, hv, fun hs => absurd hs hslip, fun _ => rfl⟩
  rename_i hpend
  have hpend : d.gl.isPending = false := by simpa using hpend
  have hhold : n ∈ d.gl.holdLockNodes := by simpa using hhold
  have hslip : d.Slips n ↔ d.valid.newestNode = some n ∧
      (d.valid.setStatus n false).hasAnyValid ≠ none := by
    simp only [Slips, hasAnyValid_setStatus_ne_none, hhold, hpend, true_and]
  simp only [isValid_of_free hv, setNodeStatus_of_free hv, next_bind, bind_eq_next, pure_def] at h
  obtain ⟨-, -, g, hunlock, -, -, hd⟩ := h
  cases hd
  have hgm : g.mutexUnlock.mutex = d.gl.mutex := by
    simp only [mutexUnlock, unlockAnyNoBlock_mutex hunlock,
      Mutex.unlock_of_relock hg]
  refine ⟨hgm, ?_, fun hs => by rw [if_pos (hslip.1 hs)],
    fun hs => by rw [if_neg (mt hslip.2 hs)]⟩
  split <;> exact hv

/-- A call that unlocks the validity table twice. -/
def DoubleUnlocks (d : Directory N) : DirOp N → Prop
  | .bufferReleaseUnlock n _ => d.Slips n
  | _ => False

/-- A call that completes ends with both mutexes free. It never unlocks the mutex of the lock
without holding it, and that of the validity table exactly when `DoubleUnlocks` says so. -/
theorem exec_mutexes (hv : d.valid.mutex.held = false) {op : DirOp N} (h : d.exec op = .next d') :
    d'.gl.mutex = { held := false, strays := d.gl.mutex.strays } ∧
      d'.valid.mutex.held = false ∧
      (d'.valid.mutex.strays = d.valid.mutex.strays ↔ ¬ d.DoubleUnlocks op) := by
  have hfree {m m' : Mutex} (hm : m.held = false) (heq : m' = m) :
      m' = { held := false, strays := m.strays } := by rw [heq, ← hm]
  cases op with
  | lrpsLock n =>
    simp only [exec, bind_eq_next, pure_def, next.injEq] at h
    obtain ⟨⟨d₁, msgs, reply⟩, hcall, rfl⟩ := h
    have hg := lrpsLock_free hcall
    obtain ⟨hgm, hvm⟩ := lrpsLock_mutex hg hv hcall
    obtain ⟨hend, hvalid⟩ := finish_mutex hg hgm
    rw [hvalid, hvm]
    exact ⟨hfree hg hend, hv, by simp [DoubleUnlocks]⟩
  | lrpxLock n =>
    simp only [exec, bind_eq_next, pure_def, next.injEq] at h
    obtain ⟨⟨d₁, msgs, reply⟩, hcall, rfl⟩ := h
    have hg := lrpxLock_free hcall
    obtain ⟨hgm, hvm⟩ := lrpxLock_mutex hg hv hcall
    obtain ⟨hend, hvalid⟩ := finish_mutex hg hgm
    rw [hvalid, hvm]
    exact ⟨hfree hg hend, hv, by simp [DoubleUnlocks]⟩
  | lrpAnyUnLock n =>
    simp only [exec, bind_eq_next, pure_def, next.injEq] at h
    obtain ⟨⟨d₁, msgs⟩, hcall, rfl⟩ := h
    have hg := lrpAnyUnLock_free hcall
    obtain ⟨hgm, hvm⟩ := lrpAnyUnLock_mutex hg hv hcall
    exact ⟨hfree hg hgm, hvm ▸ hv, by simp [DoubleUnlocks, hvm]⟩
  | bufferReleaseUnlock n lsn =>
    simp only [exec, bind_eq_next, pure_def, next.injEq] at h
    obtain ⟨⟨d₁, agree⟩, hcall, rfl⟩ := h
    have hg := bufferReleaseUnlock_free hcall
    obtain ⟨hgm, hheld, hslip, hok⟩ := bufferReleaseUnlock_mutex hg hv hcall
    exact ⟨hfree hg hgm, hheld, fun heq hs => Nat.succ_ne_self _ ((hslip hs).symm.trans heq), hok⟩

end GPLM.Directory
