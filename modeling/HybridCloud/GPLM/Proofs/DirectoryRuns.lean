import HybridCloud.GPLM.Proofs.DirectoryProofs
import HybridCloud.Lib.Transition

/-!
# Sequences of calls on a directory

What can happen to the directory is a sequence of whole calls (`Directory.exec`), and
`DirOp.Respects` is what the callers promise. Every such sequence stays among the directories that
represent a consistent abstract one (`Represents`), and no call aborts or blocks.
-/

namespace GPLM

open Outcome AbsDirectory

variable {N : Nat}

/-- What the caller of a directory call promises: no second request while one waits, no shared
request by a holder, no exclusive request by the exclusive holder, no unlock by anybody else than a
holder. `BufferReleaseUnlock` checks on its own. -/
def DirOp.Respects (d : Directory N) : DirOp N → Prop
  | .lrpsLock n => n ∉ d.gl.requestQueue.map (·.nodeId) ∧ n ∉ d.gl.holdLockNodes
  | .lrpxLock n => n ∉ d.gl.requestQueue.map (·.nodeId) ∧
      ¬ (d.gl.lock = EXCLUSIVE_LOCKED ∧ n ∈ d.gl.holdLockNodes)
  | .lrpAnyUnLock n => n ∈ d.gl.holdLockNodes
  | .bufferReleaseUnlock _ _ => True

instance (d : Directory N) : (op : DirOp N) → Decidable (op.Respects d)
  | .lrpsLock _ => inferInstanceAs (Decidable (_ ∧ _))
  | .lrpxLock _ => inferInstanceAs (Decidable (_ ∧ _))
  | .lrpAnyUnLock _ => inferInstanceAs (Decidable (_ ∈ _))
  | .bufferReleaseUnlock _ _ => inferInstanceAs (Decidable True)

/-- The directory is in the middle of no call and represents a consistent abstract directory. -/
def Directory.Represents (d : Directory N) : Prop :=
  ∃ (a : AbsDirectory N) (gm vm : Mutex),
    a.WF ∧ gm.held = false ∧ vm.held = false ∧ d = a.concrete gm vm

theorem represents_init : (Directory.init : Directory N).Represents :=
  ⟨.init, .free, .free, init_wf, rfl, rfl, concrete_init⟩

theorem exec_represents (hN : N < EXCLUSIVE_LOCKED) {d : Directory N} (hd : d.Represents)
    {op : DirOp N} (hop : op.Respects d) : ∃ d', d.exec op = .next d' ∧ d'.Represents := by
  obtain ⟨a, gm, vm, hwf, hg, hv, rfl⟩ := hd
  cases op with
  | lrpsLock n =>
    obtain ⟨hnq, hnh⟩ := hop
    have hcall := lockShared_concrete hN hg hv hwf hnq fun _ => hnh
    simp only [Directory.exec, hcall, next_bind]
    refine ⟨_, rfl, (a.lockShared n).1, gm, vm, lockShared_wf hwf hnq fun _ => hnh,
      hg, hv, ?_⟩
    cases (a.lockShared n).2.2 <;>
      simp [LockReply.finish, mutexAfter, Directory.notifyPushPageDone,
        LRGlobalPageLock.mutexUnlock, concrete, Mutex.unlock_of_relock hg]
  | lrpxLock n =>
    obtain ⟨hnq, hnx⟩ := hop
    have hnh : a.queue = [] → a.excl = true → n ∉ a.holders := fun _ hx hn =>
      hnx ⟨(lockWord_eq_exclusive hN hwf).2 hx, hn⟩
    have hcall := lockExclusive_concrete hN hg hv hwf hnq hnh
    simp only [Directory.exec, hcall, next_bind]
    refine ⟨_, rfl, (a.lockExclusive n).1, gm, vm, lockExclusive_wf hwf hnq hnh,
      hg, hv, ?_⟩
    cases hr : (a.lockExclusive n).2.2 with
    | pushFrom m => exact absurd hr (lockExclusive_not_pushFrom n m)
    | _ => rfl
  | lrpAnyUnLock n =>
    have hcall := release_concrete hN hg hv hwf hop
    simp only [Directory.exec, hcall, next_bind]
    exact ⟨_, rfl, (a.release n).1, gm, vm, release_wf hwf hop, hg, hv, rfl⟩
  | bufferReleaseUnlock n lsn =>
    have hcall := evict_concrete hN hg hv hwf n lsn
    simp only [Directory.exec, hcall, next_bind]
    refine ⟨_, rfl, (a.evict n lsn).1, gm, _, evict_wf hwf n lsn, hg, ?_, rfl⟩
    simp [validMutexAfterEvict, apply_ite Mutex.held, hv]

theorem represents_of_run (hN : N < EXCLUSIVE_LOCKED) {d : Directory N}
    (run : Run Directory.exec (fun d op => op.Respects d) Directory.init d) : d.Represents := by
  refine run.invariant represents_init fun {d op d'} hd hop htaken => ?_
  obtain ⟨d'', hexec, hrep⟩ := exec_represents hN hd hop
  rw [hexec] at htaken
  exact (next.inj htaken) ▸ hrep

/-- The fields of a directory lock agree with each other, and no call is running. -/
structure LRGlobalPageLock.Consistent (g : LRGlobalPageLock N) : Prop where
  mutex_free : g.mutex.held = false
  hold_nodup : g.holdLockNodes.Nodup
  /-- The lock word is the number of holders, or `EXCLUSIVE_LOCKED` with one holder. -/
  lock_word : g.lock = g.holdLockNodes.length ∨
    (g.lock = EXCLUSIVE_LOCKED ∧ g.holdLockNodes.length = 1)
  /-- Requests wait exactly while a round is on. -/
  queue_pending : g.requestQueue ≠ [] ↔ g.isPending = true
  s_count : g.sRequestNum = g.requestQueue.countP fun r => !r.xlock
  x_count : g.xRequestNum = g.requestQueue.countP fun r => r.xlock
  /-- `src_node_id` is the node of the oldest request while a round is on. -/
  src_pending : g.isPending = true → g.srcNodeId = g.requestQueue.head?.map (·.nodeId)
  /-- Otherwise it is `INVALID_NODE_ID`. -/
  src_idle : g.isPending = false → g.srcNodeId = none

theorem Directory.Represents.consistent {d : Directory N} (hd : d.Represents) :
    d.gl.Consistent := by
  obtain ⟨a, gm, vm, hwf, hg, -, rfl⟩ := hd
  refine
    { mutex_free := hg, hold_nodup := hwf.holders_nodup, lock_word := ?_
      queue_pending := by simp [concrete], s_count := rfl, x_count := rfl
      src_pending := fun _ => rfl, src_idle := ?_ }
  · cases hx : a.excl with
    | false => exact .inl (by simp [concrete, lockWord, hx])
    | true =>
      obtain ⟨m, hm⟩ := hwf.excl_single hx
      exact .inr (by simp [concrete, lockWord, hx, hm])
  · intro hidle
    have hq : a.queue = [] := by simpa [concrete] using hidle
    simp [concrete, front, hq]

/-- After any sequence of calls whose callers respect the protocol, the fields of the directory lock
are consistent and the next call completes: no assertion fails and the mutex is free. -/
theorem directory_lock_consistent (hN : N < EXCLUSIVE_LOCKED) {d : Directory N}
    (run : Run Directory.exec (fun d op => op.Respects d) Directory.init d) :
    d.gl.Consistent ∧ ∀ op : DirOp N, op.Respects d → ∃ d', d.exec op = .next d' := by
  have hd := represents_of_run hN run
  refine ⟨hd.consistent, fun op hop => ?_⟩
  obtain ⟨d', hexec, -⟩ := exec_represents hN hd hop
  exact ⟨d', hexec⟩

/-- Two readers, one of which waits for an upgrade while a third node waits behind it: the lock is
consistent with a round on, and the other reader's unlock goes through. -/
theorem directory_lock_consistent_in_round :
    ∃ d : Directory 3, d.gl.isPending = true ∧ d.gl.Consistent ∧
      ∃ d', d.exec (.lrpAnyUnLock 1) = .next d' := by
  have run : Run Directory.exec (fun d op => op.Respects d) (Directory.init : Directory 3) _ :=
    Run.of_follow [.lrpsLock 0, .lrpsLock 1, .lrpxLock 0, .lrpsLock 2] rfl
  obtain ⟨hcons, hnext⟩ := directory_lock_consistent (by decide) run
  exact ⟨_, rfl, hcons, hnext (.lrpAnyUnLock 1) (by decide)⟩

/-- After any sequence of calls whose callers respect the protocol, the nodes marked as having the
newest page are the holders of the lock, and the newest node is one of them, or none if there are
none. -/
theorem validity_table_accurate (hN : N < EXCLUSIVE_LOCKED) {d : Directory N}
    (run : Run Directory.exec (fun d op => op.Respects d) Directory.init d) :
    (∀ n, d.valid.nodeHasNewestPageStatus n = true ↔ n ∈ d.gl.holdLockNodes) ∧
    (d.gl.holdLockNodes ≠ [] → ∃ n ∈ d.gl.holdLockNodes, d.valid.newestNode = some n) ∧
    (d.valid.newestNode = none ↔ d.gl.holdLockNodes = []) := by
  obtain ⟨a, gm, vm, hwf, -, -, rfl⟩ := represents_of_run hN run
  refine ⟨fun n => by simp [concrete], fun hne => ?_, ?_⟩
  · cases hw : a.newest with
    | none => exact absurd (hwf.newest_none hw) hne
    | some m => exact ⟨m, hwf.newest_mem hw, hw⟩
  · refine ⟨hwf.newest_none, fun hnil => ?_⟩
    cases hw : a.newest with
    | none => exact hw
    | some m =>
      have hm : m ∈ a.holders := hwf.newest_mem hw
      rw [show a.holders = [] from hnil] at hm
      simp at hm

/-- Two readers, the first of which evicts the page: the second one is the newest node. -/
theorem validity_table_accurate_after_evict :
    ∃ d : Directory 3, d.gl.holdLockNodes = [1] ∧ d.valid.newestNode = some 1 ∧
      (∀ n, d.valid.nodeHasNewestPageStatus n = true ↔ n ∈ d.gl.holdLockNodes) := by
  have run : Run Directory.exec (fun d op => op.Respects d) (Directory.init : Directory 3) _ :=
    Run.of_follow [.lrpsLock 0, .lrpsLock 1, .bufferReleaseUnlock 0 7] rfl
  exact ⟨_, rfl, rfl, (validity_table_accurate (by decide) run).1⟩

end GPLM
