import HybridCloud.GPLM.Proofs.AbstractDirectoryProofs
import HybridCloud.GPLM.Proofs.ValidTableProofs

/-!
# The directory refines its abstract view

A call on the directory that represents an abstract directory returns the directory that represents
it after the abstract operation, and sends the same messages. The number of nodes has to stay below
`EXCLUSIVE_LOCKED`: the lock word counts readers.
-/

namespace GPLM.AbsDirectory

open Outcome Function LRGlobalPageLock

variable {N : Nat} {a : AbsDirectory N} {gm vm : Mutex}

attribute [local simp] concrete cassert mutexUnlock

theorem concrete_init : (Directory.init : Directory N) = init.concrete .free .free := by
  simp [Directory.init, init, reset, GlobalValidInfo.onlyInStorage,
    lockWord, front]

variable {rs : List (LRRequest N)} {r : LRRequest N}

/-- `SetComputenodePending` sends the Pending messages of the abstract directory. The directory has
the new request at the front of its queue and has recorded that a round is on, but not for whom. -/
theorem setComputenodePending_concrete (gm : Mutex) (hv : vm.held = false) (h : a.WF)
    (hq : a.queue = r :: rs) :
    ({ gl := { (a.concrete gm vm).gl with srcNodeId := none }, valid := (a.concrete gm vm).valid } :
      Directory N).setComputenodePending r.nodeId a.excl =
      .next (a.concrete gm.unlock vm, a.pendingMsgs) := by
  have hne : a.holders ≠ [] := by
    obtain ⟨h', hmem, -⟩ := h.round hq
    exact List.ne_nil_of_mem hmem
  cases hx : a.excl with
  | true =>
    obtain ⟨m, hm⟩ := h.excl_single hx
    simp [Directory.setComputenodePending, pendingMsgs, hq, hx, hm, pusher,
      front, lockWord]
  | false =>
    have hlen : 1 ≤ a.holders.length := List.length_pos_iff.2 hne
    by_cases hmem : r.nodeId ∈ a.holders
    · simp [Directory.setComputenodePending, pendingMsgs, hq, hx, pusher, hmem,
        hlen, front, lockWord, isValid_of_free, hv]
    · simp [Directory.setComputenodePending, pendingMsgs, hq, hx, pusher, hmem,
        hlen, front, lockWord, isValid_of_free, hv,
        getNewestNodeID_of_free]

theorem setComputenodePending_enqueue (gm : Mutex) (hv : vm.held = false) (hq : a.queue = [])
    (h : (a.enqueue r).1.WF) :
    ({ gl := { (a.concrete gm vm).gl with
          requestQueue := [r], isPending := true, sRequestNum := if r.xlock then 0 else 1,
          xRequestNum := if r.xlock then 1 else 0 },
       valid := (a.concrete gm vm).valid } : Directory N).setComputenodePending r.nodeId a.excl =
      .next ((a.enqueue r).1.concrete gm.unlock vm, (a.enqueue r).2) := by
  have hq' : (a.enqueue r).1.queue = r :: [] := by simp [enqueue, hq]
  have key := setComputenodePending_concrete gm hv h hq'
  simp only [enqueue, hq, List.nil_append, ite_true] at key ⊢
  rw [← key]
  cases hxl : r.xlock <;> simp [front, hq, hxl, lockWord]

theorem update_status_mem (holders : List (NodeId N)) (n : NodeId N) :
    update (fun m => decide (m ∈ holders)) n true =
      fun m => decide (m ∈ holders ++ [n]) := by
  funext m
  by_cases hm : m = n <;> simp [update, hm]

/-- The state of the directory's mutex when a lock call stops in front of, or after, a
`NotifyPushPage`. -/
def mutexAfter (gm : Mutex) : LockReply N → Mutex
  | .pushFrom _ => { gm with held := true }
  | _ => gm

variable {n : NodeId N}

theorem lockShared_concrete (hN : N < EXCLUSIVE_LOCKED) (hg : gm.held = false)
    (hv : vm.held = false) (h : a.WF) (hnq : n ∉ a.queued) (hnh : a.queue = [] → n ∉ a.holders) :
    (a.concrete gm vm).lrpsLock n = .next
      ((a.lockShared n).1.concrete (mutexAfter gm (a.lockShared n).2.2) vm,
        (a.lockShared n).2.1, (a.lockShared n).2.2) := by
  have hlw := lockWord_eq_exclusive hN h
  cases hq : a.queue with
  | nil =>
    have hn := hnh hq
    cases hx : a.excl with
    | false =>
      have hlw' : a.holders.length ≠ EXCLUSIVE_LOCKED := by
        simpa [lockWord, hx] using hlw
      have hlock : (a.concrete gm vm).lockShared n = .next
          ({ gl := { (a.concrete gm vm).gl with
                lock := a.holders.length + 1, holdLockNodes := a.holders ++ [n],
                mutex := { gm with held := true } },
             valid := (a.concrete gm vm).valid }, [], true) := by
        simp [Directory.lockShared, mutexLock_of_free, hg, lockWord, hx, hq, hlw',
          addHoldLockNode, hn, List.count_eq_zero_of_not_mem hn]
      cases hnew : a.newest with
      | none | some m =>
        simp only [Directory.lrpsLock, hlock, next_bind, ite_true]
        simp [Directory.replyGranted, getValid_of_free, hv, hn, hnew, lockShared, hx, hq, mutexAfter,
          Mutex.unlock_of_relock, hg, GlobalValidInfo.setStatus, update_status_mem, lockWord, front]
    | true =>
      have hlw' : a.lockWord = EXCLUSIVE_LOCKED := hlw.2 hx
      have hwf : (a.enqueue ⟨n, false⟩).1.WF := by
        refine enqueue_wf h hnq (fun _ => ?_) fun _ _ => hx
        obtain ⟨m, hm⟩ := h.excl_single hx
        exact ⟨m, by simp [hm], fun he => hn (by simpa [hm] using he.symm)⟩
      have key := setComputenodePending_enqueue { gm with held := true } hv hq hwf
      rw [hx] at key
      simp only [Directory.lrpsLock, Directory.lockShared]
      simp [mutexLock_of_free, hg, hq, hlw'] at key ⊢
      simp [key, lockShared, hx, mutexAfter, Mutex.unlock_of_relock, hg]
  | cons r rs =>
    have hlw0 : a.lockWord ≠ 0 := by
      obtain ⟨m, hm, -⟩ := h.round hq
      exact fun h0 => List.ne_nil_of_mem hm ((lockWord_eq_zero h).1 h0)
    have hlock : (a.concrete gm vm).lockShared n =
        .next ((a.enqueue ⟨n, false⟩).1.concrete gm vm, [], false) := by
      simp [Directory.lockShared, mutexLock_of_free, hg, hq, hlw0,
        Mutex.unlock_of_relock]
      simp [enqueue, hq, front, lockWord, List.countP_cons, List.countP_append]
      omega
    simp [-concrete, Directory.lrpsLock, hlock, lockShared, enqueue, hq, mutexAfter]

theorem lockExclusive_concrete (hN : N < EXCLUSIVE_LOCKED) (hg : gm.held = false)
    (hv : vm.held = false) (h : a.WF) (hnq : n ∉ a.queued)
    (hnh : a.queue = [] → a.excl = true → n ∉ a.holders) :
    (a.concrete gm vm).lrpxLock n = .next
      ((a.lockExclusive n).1.concrete gm vm, (a.lockExclusive n).2.1, (a.lockExclusive n).2.2) := by
  cases hq : a.queue with
  | nil =>
    by_cases hh : a.holders = []
    · have hx : a.excl = false := by
        by_contra hx
        obtain ⟨m, hm⟩ := h.excl_single (by simpa using hx)
        simp [hm] at hh
      have hnew : a.newest = none := by
        cases hw : a.newest with
        | none => rfl
        | some m => simpa [hh] using h.newest_mem hw
      have hlock : (a.concrete gm vm).lockExclusive n = .next
          ({ gl := { (a.concrete gm vm).gl with
                lock := EXCLUSIVE_LOCKED, holdLockNodes := [n], mutex := { gm with held := true } },
             valid := (a.concrete gm vm).valid }, [], true) := by
        simp [Directory.lockExclusive, mutexLock_of_free, hg, hq, hh, hx, lockWord, addHoldLockNode]
      simp only [Directory.lrpxLock, hlock, next_bind, ite_true]
      simp [Directory.replyGranted, getValid_of_free, hv, hh, hnew, lockExclusive, hq,
        Mutex.unlock_of_relock, hg, GlobalValidInfo.setStatus, lockWord, front]
      funext m
      by_cases hm : m = n <;> simp [update, hm]
    · by_cases hup : a.excl = false ∧ a.holders = [n]
      · obtain ⟨hx, hn⟩ := hup
        have hlock : (a.concrete gm vm).lockExclusive n = .next
            ({ gl := { (a.concrete gm vm).gl with
                  lock := EXCLUSIVE_LOCKED, mutex := { gm with held := true } },
               valid := (a.concrete gm vm).valid }, [], true) := by
          simp [Directory.lockExclusive, mutexLock_of_free, hg, hq, hn, hx, lockWord]
        simp only [Directory.lrpxLock, hlock, next_bind, ite_true]
        simp [Directory.replyGranted, getValid_of_free, hv, hn, lockExclusive, hq, hx,
          Mutex.unlock_of_relock, hg, lockWord, front]
      · have hlw := lockWord_eq_exclusive hN h
        have hlw0 : a.lockWord ≠ 0 := fun h0 => hh ((lockWord_eq_zero h).1 h0)
        have hlw1 : ¬ (a.lockWord = 1 ∧ a.holders.head? = some n) := by
          rintro ⟨h1, hhd⟩
          cases hx : a.excl with
          | true => simp [lockWord, hx, EXCLUSIVE_LOCKED] at h1
          | false =>
            simp only [lockWord, hx, Bool.false_eq_true, ite_false] at h1
            obtain ⟨m, hm⟩ := List.length_eq_one_iff.1 h1
            exact hup ⟨hx, by simpa [hm] using hhd⟩
        have hwf : (a.enqueue ⟨n, true⟩).1.WF := by
          refine enqueue_wf h hnq (fun _ => ?_) (by simp)
          refine exists_mem_ne h.holders_nodup hh fun hn => ?_
          cases hx : a.excl with
          | false => exact hup ⟨hx, hn⟩
          | true => exact hnh hq hx (by simp [hn])
        have key := setComputenodePending_enqueue { gm with held := true } hv hq hwf
        have hlock : (a.concrete gm vm).lockExclusive n =
            .next ((a.enqueue ⟨n, true⟩).1.concrete gm vm, (a.enqueue ⟨n, true⟩).2, false) := by
          simp only [Directory.lockExclusive]
          cases hx : a.excl with
          | false =>
            have hne : a.lockWord ≠ EXCLUSIVE_LOCKED := by simp [hlw, hx]
            rw [hx] at key
            simp [mutexLock_of_free, hg, hq, hlw0, hlw1, hne] at key ⊢
            simp [key, Mutex.unlock_of_relock, hg]
          | true =>
            have he : a.lockWord = EXCLUSIVE_LOCKED := hlw.2 hx
            obtain ⟨m, hm⟩ := h.excl_single hx
            have hne : m ≠ n := fun e => hnh hq hx (by simp [hm, e])
            rw [hx] at key
            have hl0 : EXCLUSIVE_LOCKED ≠ 0 := by simp [EXCLUSIVE_LOCKED]
            simp [mutexLock_of_free, hg, hq, he, hm, hne, hl0] at key ⊢
            simp [key, Mutex.unlock_of_relock, hg]
        have hl : a.lockExclusive n =
            ((a.enqueue ⟨n, true⟩).1, (a.enqueue ⟨n, true⟩).2, .waitLockRelease) := by
          simp only [lockExclusive, hq, true_and, hh, if_neg hup, ite_false]
        simp [-concrete, Directory.lrpxLock, hlock, hl]
  | cons r rs =>
    have hlock : (a.concrete gm vm).lockExclusive n =
        .next ((a.enqueue ⟨n, true⟩).1.concrete gm vm, [], false) := by
      simp [Directory.lockExclusive, mutexLock_of_free, hg, hq, Mutex.unlock_of_relock]
      simp [enqueue, hq, front, lockWord, List.countP_cons, List.countP_append]
      omega
    simp [-concrete, Directory.lrpxLock, hlock, lockExclusive, enqueue, hq]

theorem filter_ne_eq_erase {l : List (NodeId N)} (hnd : l.Nodup) (n : NodeId N) :
    (l.filter fun m => m ≠ n) = l.erase n := by
  rw [hnd.erase_eq_filter]
  congr 1
  funext m
  by_cases hm : m = n <;> simp [hm]

theorem unlockAnyNoBlock_concrete (hN : N < EXCLUSIVE_LOCKED) (h : a.WF) (hn : n ∈ a.holders)
    {g : LRGlobalPageLock N} (hlock : g.lock = a.lockWord) (hhold : g.holdLockNodes = a.holders) :
    g.unlockAnyNoBlock n = .next { g with
      lock := (a.holders.filter fun m => m ≠ n).length
      holdLockNodes := a.holders.filter fun m => m ≠ n } := by
  have hlw := lockWord_eq_exclusive hN h
  cases hx : a.excl with
  | true =>
    obtain ⟨m, hm⟩ := h.excl_single hx
    obtain rfl : n = m := by simpa [hm] using hn
    simp [unlockAnyNoBlock, hlock, hlw.2 hx, hhold, hm, removeHoldLockNode]
  | false =>
    have hne : a.lockWord ≠ EXCLUSIVE_LOCKED := by simp [hlw, hx]
    have hlen : a.lockWord = a.holders.length := by simp [lockWord, hx]
    have hcount : a.holders.count n = 1 := List.count_eq_one_of_mem h.holders_nodup hn
    have hrest : a.holders.length - 1 = (a.holders.filter fun m => m ≠ n).length := by
      rw [filter_ne_eq_erase h.holders_nodup, List.length_erase_of_mem hn]
    have hne' : a.holders.length ≠ EXCLUSIVE_LOCKED := hlen ▸ hne
    simp [unlockAnyNoBlock, hlock, hhold, hlen, hne', hcount,
      removeHoldLockNode, hrest]

theorem grantReaders_eq (rs : List (LRRequest N)) (g : LRGlobalPageLock N)
    (hnd : (rs.map (·.nodeId)).Nodup) (hnew : ∀ r ∈ rs, r.nodeId ∉ g.holdLockNodes) :
    grantReaders rs g = .next
      ({ g with lock := g.lock + rs.countP fun q => !q.xlock
                holdLockNodes := g.holdLockNodes ++ (rs.filter fun q => !q.xlock).map (·.nodeId)
                sRequestNum := g.sRequestNum - rs.countP fun q => !q.xlock },
        rs.filter fun q => q.xlock) := by
  induction rs generalizing g with
  | nil => simp [grantReaders]
  | cons r rs ih =>
    obtain ⟨hr, hrs⟩ : r.nodeId ∉ rs.map (·.nodeId) ∧ (rs.map (·.nodeId)).Nodup := by
      simpa using hnd
    cases hx : r.xlock with
    | true =>
      have hrec := ih g hrs fun q hq => hnew q (List.mem_cons_of_mem _ hq)
      simp [grantReaders, hx, hrec]
    | false =>
      have hrn : r.nodeId ∉ g.holdLockNodes := hnew r List.mem_cons_self
      have hrec := ih { g with lock := g.lock + 1
                               holdLockNodes := g.holdLockNodes ++ [r.nodeId]
                               sRequestNum := g.sRequestNum - 1 } hrs (by
        intro q hq
        have hne : q.nodeId ≠ r.nodeId := fun he => hr (he ▸ List.mem_map_of_mem hq)
        simpa [hne] using hnew q (List.mem_cons_of_mem _ hq))
      simp [grantReaders, hx, addHoldLockNode, hrn, hrec]
      omega

/-- The directory lock between `UnlockAny` and `TransferControl`. -/
def unlocked (a : AbsDirectory N) (gm vm : Mutex) (n : NodeId N) : LRGlobalPageLock N :=
  { (a.concrete gm vm).gl with
    lock := (a.rest n).length
    holdLockNodes := a.rest n
    mutex := { gm with held := true } }

section

variable (hN : N < EXCLUSIVE_LOCKED)
include hN

theorem unlockAny_concrete (hg : gm.held = false) (h : a.WF)
    (hn : n ∈ a.holders) : (a.concrete gm vm).gl.unlockAny n = .next (a.unlocked gm vm n) := by
  have hl : (a.concrete gm vm).gl.mutexLock =
      .next { (a.concrete gm vm).gl with mutex := { gm with held := true } } :=
    mutexLock_of_free hg
  rw [unlockAny, hl, next_bind, unlockAnyNoBlock_concrete hN h hn rfl rfl]
  rfl

theorem rest_length_lt (h : a.WF) (n : NodeId N) :
    (a.rest n).length ≠ EXCLUSIVE_LOCKED := by
  have h1 : (a.rest n).length ≤ a.holders.length := List.length_filter_le _ _
  have h2 := holders_length_le h
  omega

theorem transferControl_idle (h : a.WF) (n : NodeId N)
    (hq : a.queue = []) :
    (a.unlocked gm vm n).transferControl = .next (a.unlocked gm vm n, false) := by
  have hlt := rest_length_lt hN h n
  simp [transferControl, unlocked, hq, hlt]

/-- Other nodes still hold the page, and they are not just the one that waits first. -/
theorem transferControl_wait (h : a.WF) (n : NodeId N)
    (hq : a.queue = r :: rs) (hne : a.rest n ≠ []) (hne' : a.rest n ≠ [r.nodeId]) :
    (a.unlocked gm vm n).transferControl = .next (a.unlocked gm vm n, false) := by
  have hlt := rest_length_lt hN h n
  have hpos : 0 < (a.rest n).length := List.length_pos_iff.2 hne
  have hno : ¬ ((a.rest n).length = 1 ∧ (a.rest n).head? = some r.nodeId) := by
    rintro ⟨h1, hhd⟩
    obtain ⟨m, hm⟩ := List.length_eq_one_iff.1 h1
    exact hne' (by simpa [hm] using hhd)
  simp [transferControl, unlocked, hq, hlt, hne, hpos, hno]

end

/-- Only the node that waits first is left: it gets the exclusive lock in place. -/
theorem transferControl_upgrade (n : NodeId N) (hq : a.queue = r :: rs) (hx : r.xlock = true)
    (hrest : a.rest n = [r.nodeId]) :
    (a.unlocked gm vm n).transferControl = .next
      ({ a.unlocked gm vm n with
          lock := EXCLUSIVE_LOCKED, requestQueue := rs, isPending := false,
          sRequestNum := rs.countP fun q => !q.xlock, xRequestNum := rs.countP fun q => q.xlock },
        true) := by
  have hlt : (1 : Nat) ≠ EXCLUSIVE_LOCKED := by simp [EXCLUSIVE_LOCKED]
  simp [transferControl, unlocked, hq, hrest, hx, hlt]

/-- Nobody is left: the page goes to the oldest request, and with a reader to all readers. -/
theorem transferControl_grant (h : a.WF) (n : NodeId N) (hq : a.queue = r :: rs)
    (hrest : a.rest n = []) :
    (a.unlocked gm vm n).transferControl = .next
      ({ a.unlocked gm vm n with
          lock := if r.xlock then EXCLUSIVE_LOCKED else (granted r rs).length
          holdLockNodes := granted r rs, requestQueue := kept r rs, isPending := false,
          sRequestNum := (kept r rs).countP fun q => !q.xlock
          xRequestNum := (kept r rs).countP fun q => q.xlock },
        true) := by
  have hlt : (0 : Nat) ≠ EXCLUSIVE_LOCKED := by simp [EXCLUSIVE_LOCKED]
  cases hx : r.xlock with
  | true =>
    simp [transferControl, unlocked, hq, hrest, hx, hlt, front,
      addHoldLockNode, granted, kept]
  | false =>
    have hnd : (rs.map (·.nodeId)).Nodup := by
      have := h.queue_nodup
      simp only [queued, hq, List.map_cons, List.nodup_cons] at this
      exact this.2
    have hr : r.nodeId ∉ rs.map (·.nodeId) := by
      have := h.queue_nodup
      simp only [queued, hq, List.map_cons, List.nodup_cons] at this
      exact this.1
    have hgrant := grantReaders_eq rs
      { a.unlocked gm vm n with
        lock := 1, holdLockNodes := [r.nodeId], requestQueue := rs
        sRequestNum := rs.countP fun q => !q.xlock } hnd (by
          intro q hq' hmem
          have he : q.nodeId = r.nodeId := by simpa using hmem
          exact hr (he ▸ List.mem_map_of_mem hq'))
    have hkeptS : ((rs.filter fun q => q.xlock).countP fun q => !q.xlock) = 0 := by
      simp [List.countP_eq_zero]
    have hkeptX : ((rs.filter fun q => q.xlock).countP fun q => q.xlock) =
        rs.countP fun q => q.xlock := by
      simp [List.countP_filter]
    by_cases hpos : 0 < rs.countP fun q => !q.xlock
    · have hpos' : (1 : Int) < (rs.countP fun q => !q.xlock) + 1 := by omega
      simp [transferControl, unlocked, hq, hrest, hx, hlt, front,
        addHoldLockNode, hpos'] at hgrant ⊢
      simp [hgrant, granted, kept, hx, hkeptS, hkeptX, ← List.countP_eq_length_filter, Nat.add_comm]
    · have hall : ∀ q ∈ rs, q.xlock = true := by
        simpa [List.countP_eq_zero] using Nat.eq_zero_of_not_pos hpos
      have hS : (rs.filter fun q => !q.xlock) = [] := by simpa [List.filter_eq_nil_iff] using hall
      have hX : (rs.filter fun q => q.xlock) = rs := List.filter_eq_self.2 hall
      have hz : (rs.countP fun q => !q.xlock) = 0 := Nat.eq_zero_of_not_pos hpos
      simp [transferControl, unlocked, hq, hrest, hx, hlt, front,
        addHoldLockNode, hz, granted, kept, hS, hX]

theorem lockSuccessMsgs_none (x : Bool) (v : GlobalValidInfo N) (hs ns : List (NodeId N)) :
    Directory.lockSuccessMsgs x v hs ns none =
      (ns.map fun m => .lockSuccess m x false [], none) := by
  induction ns with
  | nil => rfl
  | cons m ns ih => simp [Directory.lockSuccessMsgs, ih]

variable {others : List (NodeId N)} {first : NodeId N}

/-- The first new holder is served with the list of the others, which only get the lock. -/
theorem lockSuccessMsgs_eq (x : Bool) (v : GlobalValidInfo N) (hnd : first ∉ others) :
    Directory.lockSuccessMsgs x v (first :: others) (first :: others) (some first) =
      (successMsgs x (v.nodeHasNewestPageStatus first) first others, none) := by
  have hfilter : (others.filter fun m => !decide (m = first)) = others := by
    refine List.filter_eq_self.2 fun m hm => ?_
    have : m ≠ first := fun he => hnd (he ▸ hm)
    simpa using this
  simp [Directory.lockSuccessMsgs, lockSuccessMsgs_none, successMsgs,
    GlobalValidInfo.isValidNoBlock, hfilter]

theorem validity_handed_on (gm : Mutex) (hv : vm.held = false)
    (hsub : ∀ m ∈ a.rest n, m ∈ first :: others) :
    (((first :: others).foldl (fun v m => v.setNodeStatusNoBlock m true)
        (GlobalValidInfo.releasePageNoBlock
          { (a.concrete gm vm).valid with mutex := { vm with held := true } } n)
      ).setValidAndUpdateNewest first) =
      { newestNode := some first
        nodeHasNewestPageStatus := fun m => m ∈ first :: others
        mutex := vm } := by
  rw [foldl_setNodeStatusNoBlock]
  simp only [releasePageNoBlock_eq, GlobalValidInfo.setValidAndUpdateNewest,
    GlobalValidInfo.setStatus, GlobalValidInfo.unlock, Mutex.unlock_of_relock hv,
      GlobalValidInfo.mk.injEq,
    true_and, and_true]
  funext m
  by_cases hm : m = first
  · simp [update, hm]
  · by_cases hr : m ∈ a.rest n
    · have ho : m ∈ others := by simpa [hm] using hsub m hr
      simp [update, hm, ho]
    · have hr' : m = n ∨ m ∉ a.holders := by
        simp only [rest, List.mem_filter, not_and] at hr
        by_cases hmem : m ∈ a.holders
        · exact .inl (by simpa using hr hmem)
        · exact .inr hmem
      rcases hr' with rfl | hr' <;> simp [update, *]

theorem transferPending_concrete (hN : N < EXCLUSIVE_LOCKED) (gm : Mutex) (hv : vm.held = false)
    (h : a.WF) :
    ({ gl := { (a.concrete gm vm).gl with isPending := false, srcNodeId := none }
       valid := (a.concrete gm vm).valid } : Directory N).transferPending =
      .next (a.concrete gm.unlock vm, a.pendingMsgs) := by
  have hlw := lockWord_eq_exclusive hN h
  cases hq : a.queue with
  | nil =>
    simp [Directory.transferPending, hq, pendingMsgs, front]
  | cons r rs =>
    have key := setComputenodePending_concrete gm hv h hq
    have hsingle : a.excl = true → a.holders.length = 1 ∧ a.holders.head? ≠ some r.nodeId := by
      intro hx
      obtain ⟨m, hm⟩ := h.excl_single hx
      obtain ⟨k, hk, hne⟩ := h.round hq
      obtain rfl : k = m := by simpa [hm] using hk
      simpa [hm] using hne
    have hpos : 0 < List.countP (fun q => if r.xlock then q.xlock else !q.xlock) (r :: rs) := by
      rw [List.countP_pos_iff]
      exact ⟨r, List.mem_cons_self, by cases r.xlock <;> simp⟩
    cases hx : a.excl with
    | true =>
      obtain ⟨h1, hne⟩ := hsingle hx
      have he : a.lockWord = EXCLUSIVE_LOCKED := hlw.2 hx
      rw [hx] at key
      cases hr : r.xlock <;>
        simp [Directory.transferPending, hq, hr, he, h1, hne] at key hpos ⊢ <;>
        simpa [hpos] using key
    | false =>
      have hr : r.xlock = true := by
        by_contra hr
        simpa [hx] using h.front_reader hq (by simpa using hr)
      have he : a.lockWord ≠ EXCLUSIVE_LOCKED := by simp [hlw, hx]
      rw [hx] at key
      simp [Directory.transferPending, hq, hr, he] at key hpos ⊢
      simpa [hpos] using key

theorem hasAnyValid_concrete (n : NodeId N) :
    ((a.concrete gm vm).valid.setStatus n false).hasAnyValid =
      (List.finRange N).find? fun i => i ∈ a.rest n := by
  simp only [GlobalValidInfo.hasAnyValid]
  congr 1
  funext i
  by_cases hi : i = n <;>
    simp [GlobalValidInfo.setStatus, rest, update, hi]

theorem releasePageNoBlock_concrete (n : NodeId N) :
    (a.concrete gm vm).valid.releasePageNoBlock n = ((a.leave n).concrete gm vm).valid := by
  rw [releasePageNoBlock_eq, hasAnyValid_concrete]
  simp only [GlobalValidInfo.setStatus, concrete, leave, newestWithout]
  congr 1
  funext m
  by_cases hm : m = n <;> simp [rest, update, hm]

/-- The validity table's mutex after `BufferReleaseUnlock`. -/
def validMutexAfterEvict (a : AbsDirectory N) (vm : Mutex) (n : NodeId N) : Mutex :=
  if n ∈ a.holders ∧ a.queue = [] ∧ a.newest = some n ∧ a.rest n ≠ []
  then { vm with strays := vm.strays + 1 } else vm

theorem evict_concrete (hN : N < EXCLUSIVE_LOCKED) (hg : gm.held = false) (hv : vm.held = false)
    (h : a.WF) (n : NodeId N) (lsn : Nat) :
    (a.concrete gm vm).bufferReleaseUnlock n lsn = .next
      ((a.evict n lsn).1.concrete gm (a.validMutexAfterEvict vm n), (a.evict n lsn).2) := by
  have hl : (a.concrete gm vm).gl.mutexLock =
      .next { (a.concrete gm vm).gl with mutex := { gm with held := true } } :=
    mutexLock_of_free hg
  by_cases hc : n ∈ a.holders ∧ a.queue = []
  · obtain ⟨hn, hq⟩ := hc
    have hu := unlockAnyNoBlock_concrete hN h hn (g := { (a.concrete gm vm).gl with
        lsnId := lsn, mutex := { gm with held := true } }) rfl rfl
    have hval : (a.concrete gm vm).valid.isValid n = .next ((a.concrete gm vm).valid, true) := by
      rw [isValid_of_free hv]
      simp [hn]
    have hset : (a.concrete gm vm).valid.setNodeStatus n false = _ :=
      setNodeStatus_of_free hv n
    rw [releasePageNoBlock_concrete, hasAnyValid_concrete] at hset
    simp only [Directory.bufferReleaseUnlock, hl, next_bind]
    rw [if_neg (by simp [checkIsHoldNoBlock, hn]),
      if_neg (by simp [hq])]
    simp only [hval, next_bind, hset, hu]
    simp only [concrete, hq, cassert, ite_true, next_bind, evict, hn, and_self]
    simp [validMutexAfterEvict, hn, hq, Mutex.unlock_of_relock hg, leave, rest, lockWord, front]
  · have hm : a.validMutexAfterEvict vm n = vm := by
      rw [validMutexAfterEvict, if_neg]
      exact fun h' => hc ⟨h'.1, h'.2.1⟩
    simp only [Directory.bufferReleaseUnlock, hl, next_bind, evict, if_neg hc, hm]
    by_cases hn : n ∈ a.holders
    · have hq : a.queue ≠ [] := fun hq => hc ⟨hn, hq⟩
      simp [checkIsHoldNoBlock, hn, hq, Mutex.unlock_of_relock hg]
    · simp [checkIsHoldNoBlock, hn, Mutex.unlock_of_relock hg]

theorem lrpAnyUnLock_handed_on (hN : N < EXCLUSIVE_LOCKED) (hg : gm.held = false)
    (hv : vm.held = false) {x : Bool}
    {queue : List (LRRequest N)} (hwf : (a.grant x first others queue).1.WF)
    (hfront : a.front = some first) (hsub : ∀ m ∈ a.rest n, m ∈ first :: others)
    (hunlock : (a.concrete gm vm).gl.unlockAny n = .next (a.unlocked gm vm n))
    (htransfer : (a.unlocked gm vm n).transferControl = .next
      ({ a.unlocked gm vm n with
          lock := (a.grant x first others queue).1.lockWord
          holdLockNodes := first :: others, requestQueue := queue, isPending := false,
          sRequestNum := queue.countP fun q => !q.xlock
          xRequestNum := queue.countP fun q => q.xlock }, true)) :
    (a.concrete gm vm).lrpAnyUnLock n = .next
      ((a.grant x first others queue).1.concrete gm vm, (a.grant x first others queue).2) := by
  have hnd : first ∉ others := (List.nodup_cons.1 hwf.holders_nodup).1
  have hx : decide ((a.grant x first others queue).1.lockWord = EXCLUSIVE_LOCKED) = x := by
    simp only [lockWord_eq_exclusive hN hwf]
    change decide (x = true) = x
    cases x <;> rfl
  have hlv : (a.concrete gm vm).valid.globalLock =
      .next { (a.concrete gm vm).valid with mutex := { vm with held := true } } :=
    globalLock_of_free hv
  have hpend := transferPending_concrete hN { gm with held := true } hv hwf
  have hmsgs := lockSuccessMsgs_eq x
    { (a.concrete gm vm).valid with mutex := { vm with held := true } } hnd
  have hval := validity_handed_on (a := a) gm hv hsub
  rw [Directory.lrpAnyUnLock, hunlock, next_bind, htransfer, next_bind]
  simp only [ite_true, hlv, next_bind, Directory.sendComputenodeLockSuccess, ne_eq,
    List.cons_ne_nil, not_false_eq_true, cassert_bind]
  have hsrc : (a.unlocked gm vm n).srcNodeId = some first := hfront
  simp only [hsrc, hx, hmsgs, pure_def, next_bind, hval]
  refine (congrArg (fun o => o >>= _) hpend).trans ?_
  simp [Mutex.unlock_of_relock hg, grant]

theorem release_concrete (hN : N < EXCLUSIVE_LOCKED) (hg : gm.held = false) (hv : vm.held = false)
    (h : a.WF) (hn : n ∈ a.holders) :
    (a.concrete gm vm).lrpAnyUnLock n = .next ((a.release n).1.concrete gm vm, (a.release n).2) := by
  have hunlock : (a.concrete gm vm).gl.unlockAny n = .next (a.unlocked gm vm n) :=
    unlockAny_concrete hN hg h hn
  have hstay : (a.unlocked gm vm n).transferControl = .next (a.unlocked gm vm n, false) →
      (a.concrete gm vm).lrpAnyUnLock n = .next ((a.leave n).concrete gm vm, []) := by
    intro hc
    have hrel : (a.concrete gm vm).valid.releasePage n = _ := releasePage_of_free hv n
    rw [releasePageNoBlock_concrete] at hrel
    rw [Directory.lrpAnyUnLock, hunlock, next_bind, hc, next_bind]
    simp only [Bool.false_eq_true, ite_false, hrel, next_bind]
    by_cases hqe : a.queue = [] <;>
      simp [unlocked, Mutex.unlock_of_relock hg, leave, lockWord,
        front, hqe]
  cases hq : a.queue with
  | nil =>
    simp only [release, hq]
    exact hstay (transferControl_idle hN h n hq)
  | cons r rs =>
    have hfront : a.front = some r.nodeId := by simp [front, hq]
    by_cases h0 : a.rest n = []
    · simp only [release, hq, h0, ite_true]
      refine lrpAnyUnLock_handed_on hN hg hv (grant_kept_wf h hq) hfront (by simp [h0]) hunlock ?_
      rw [transferControl_grant h n hq h0]
      cases hx : r.xlock <;> simp [grant, granted, lockWord, hx]
    · by_cases h1 : a.rest n = [r.nodeId]
      · simp only [release, hq, h1, List.cons_ne_nil, ite_false, ite_true]
        have hx : r.xlock = true := xlock_of_rest h hn hq h0
        refine lrpAnyUnLock_handed_on hN hg hv (grant_upgrade_wf h hq) hfront (by simp [h1])
          hunlock ?_
        rw [transferControl_upgrade n hq hx h1]
        simp [grant, lockWord, unlocked, h1]
      · simp only [release, hq, h0, h1, ite_false]
        exact hstay (transferControl_wait hN h n hq h0 h1)

end GPLM.AbsDirectory
