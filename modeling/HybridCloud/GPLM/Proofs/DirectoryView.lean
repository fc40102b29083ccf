import HybridCloud.GPLM.Proofs.DirectoryProofs

/-!
# Reading the abstract directory off the concrete one

`Directory.view` computes the abstract directory from the fields of the concrete one, and
`Directory.Sound` says that the concrete one is exactly what represents it. This is the form in
which the protocol uses the refinement.
-/

namespace GPLM.Directory

open Outcome AbsDirectory

variable {N : Nat} {d d' : Directory N}

/-- The directory as its callers see it. -/
def view (d : Directory N) : AbsDirectory N where
  holders := d.gl.holdLockNodes
  excl := d.gl.lock = EXCLUSIVE_LOCKED
  queue := d.gl.requestQueue
  newest := d.valid.newestNode
  lsn := d.gl.lsnId

/-- All fields of the directory agree with its view. -/
structure Sound (d : Directory N) : Prop where
  wf : d.view.WF
  /-- The redundant fields are those computed from the view. -/
  eq_concrete : d = d.view.concrete d.gl.mutex d.valid.mutex
  /-- No call is in the middle of the validity table. -/
  valid_free : d.valid.mutex.held = false

variable {a : AbsDirectory N}

theorem view_concrete (hN : N < EXCLUSIVE_LOCKED) (h : a.WF) (gm vm : Mutex) :
    (a.concrete gm vm).view = a := by
  have hx : decide (a.lockWord = EXCLUSIVE_LOCKED) = a.excl := by
    simp [lockWord_eq_exclusive hN h]
  simp [view, concrete, hx]

theorem sound_concrete (hN : N < EXCLUSIVE_LOCKED) (h : a.WF) {gm vm : Mutex}
    (hv : vm.held = false) : (a.concrete gm vm).Sound := by
  refine ⟨?_, ?_, hv⟩
  · rwa [view_concrete hN h]
  · rw [view_concrete hN h]
    rfl

theorem mutexLock_free {g g' : LRGlobalPageLock N} (h : g.mutexLock = .next g') :
    g.mutex.held = false := by
  simp only [LRGlobalPageLock.mutexLock, bind_eq_next, Mutex.lock_eq_next] at h
  obtain ⟨_, ⟨hfree, -⟩, -⟩ := h
  exact hfree

variable {n : NodeId N} {r : Directory N × List (DirMsg N) × LockReply N}

theorem lrpsLock_free (h : d.lrpsLock n = .next r) : d.gl.mutex.held = false := by
  simp only [lrpsLock, lockShared, bind_eq_next] at h
  obtain ⟨_, ⟨_, hlock, -⟩, -⟩ := h
  exact mutexLock_free hlock

theorem lrpxLock_free (h : d.lrpxLock n = .next r) : d.gl.mutex.held = false := by
  simp only [lrpxLock, lockExclusive, bind_eq_next] at h
  obtain ⟨_, ⟨_, hlock, -⟩, -⟩ := h
  exact mutexLock_free hlock

theorem lrpAnyUnLock_free {r : Directory N × List (DirMsg N)} (h : d.lrpAnyUnLock n = .next r) :
    d.gl.mutex.held = false := by
  simp only [lrpAnyUnLock, LRGlobalPageLock.unlockAny, bind_eq_next] at h
  obtain ⟨_, ⟨_, hlock, -⟩, -⟩ := h
  exact mutexLock_free hlock

theorem bufferReleaseUnlock_free {lsn : Nat} {r : Directory N × Bool}
    (h : d.bufferReleaseUnlock n lsn = .next r) : d.gl.mutex.held = false := by
  simp only [bufferReleaseUnlock, bind_eq_next] at h
  obtain ⟨_, hlock, -⟩ := h
  exact mutexLock_free hlock

theorem Sound.call {β : Type} (hd : d.Sound) {f : Directory N → Outcome β} {r r' : β}
    (h : f d = .next r) (hc : f (d.view.concrete d.gl.mutex d.valid.mutex) = .next r') : r = r' := by
  rw [← hd.eq_concrete, h] at hc
  exact next.inj hc

variable {msgs : List (DirMsg N)} {reply : LockReply N}

section

variable (hN : N < EXCLUSIVE_LOCKED)
include hN

/-- The call refines the abstract lock. -/
theorem Sound.lrpsLock (hd : d.Sound) (hnq : n ∉ d.view.queued)
    (hnh : d.view.queue = [] → n ∉ d.view.holders) (h : d.lrpsLock n = .next (d', msgs, reply)) :
    d'.Sound ∧ d'.view = (d.view.lockShared n).1 ∧ msgs = (d.view.lockShared n).2.1 ∧
      reply = (d.view.lockShared n).2.2 ∧
      d'.gl.mutex = mutexAfter d.gl.mutex reply := by
  have hwf := lockShared_wf hd.wf hnq hnh
  have hr := hd.call (f := fun d => d.lrpsLock n) h
    (lockShared_concrete hN (lrpsLock_free h) hd.valid_free hd.wf hnq hnh)
  obtain ⟨rfl, rfl, rfl⟩ := hr
  exact ⟨sound_concrete hN hwf hd.valid_free, view_concrete hN hwf _ _, rfl, rfl, rfl⟩

theorem Sound.lrpxLock (hd : d.Sound) (hnq : n ∉ d.view.queued)
    (hnh : d.view.queue = [] → d.view.excl = true → n ∉ d.view.holders)
    (h : d.lrpxLock n = .next (d', msgs, reply)) :
    d'.Sound ∧ d'.view = (d.view.lockExclusive n).1 ∧ msgs = (d.view.lockExclusive n).2.1 ∧
      reply = (d.view.lockExclusive n).2.2 ∧ d'.gl.mutex = d.gl.mutex := by
  have hwf := lockExclusive_wf hd.wf hnq hnh
  have hr := hd.call (f := fun d => d.lrpxLock n) h
    (lockExclusive_concrete hN (lrpxLock_free h) hd.valid_free hd.wf hnq hnh)
  obtain ⟨rfl, rfl, rfl⟩ := hr
  exact ⟨sound_concrete hN hwf hd.valid_free, view_concrete hN hwf _ _, rfl, rfl, rfl⟩

theorem Sound.lrpAnyUnLock (hd : d.Sound) (hn : n ∈ d.view.holders)
    (h : d.lrpAnyUnLock n = .next (d', msgs)) :
    d'.Sound ∧ d'.view = (d.view.release n).1 ∧ msgs = (d.view.release n).2 ∧
      d'.gl.mutex = d.gl.mutex := by
  have hwf := release_wf hd.wf hn
  have hr := hd.call (f := fun d => d.lrpAnyUnLock n) h
    (release_concrete hN (lrpAnyUnLock_free h) hd.valid_free hd.wf hn)
  obtain ⟨rfl, rfl⟩ := hr
  exact ⟨sound_concrete hN hwf hd.valid_free, view_concrete hN hwf _ _, rfl, rfl⟩

theorem Sound.bufferReleaseUnlock (hd : d.Sound) {lsn : Nat}
    {agree : Bool} (h : d.bufferReleaseUnlock n lsn = .next (d', agree)) :
    d'.Sound ∧ d'.view = (d.view.evict n lsn).1 ∧ agree = (d.view.evict n lsn).2 ∧
      d'.gl.mutex = d.gl.mutex := by
  have hwf := evict_wf hd.wf n lsn
  have hr := hd.call (f := fun d => d.bufferReleaseUnlock n lsn) h
    (evict_concrete hN (bufferReleaseUnlock_free h) hd.valid_free hd.wf n lsn)
  obtain ⟨rfl, rfl⟩ := hr
  refine ⟨sound_concrete hN hwf ?_, view_concrete hN hwf _ _, rfl, rfl⟩
  simp [validMutexAfterEvict, apply_ite Mutex.held, hd.valid_free]

end

theorem Sound.notifyPushPageDone (hd : d.Sound) :
    d.notifyPushPageDone.Sound ∧ d.notifyPushPageDone.view = d.view := by
  exact ⟨⟨hd.wf, congrArg Directory.notifyPushPageDone hd.eq_concrete, hd.valid_free⟩, rfl⟩

end GPLM.Directory
