import HybridCloud.GPLM.GlobalPageLock

/-!
# Single calls on the validity table

A call that takes the mutex and releases it leaves it as it was, with one exception: `setNodeStatus`
unlocks a second time when it finds another node to be the newest one.
-/

namespace GPLM

open Outcome

variable {N : Nat}

attribute [local simp] GlobalValidInfo.unlock GlobalValidInfo.setStatus

theorem mutexLock_of_free {g : LRGlobalPageLock N} (h : g.mutex.held = false) :
    g.mutexLock = .next { g with mutex := { g.mutex with held := true } } := by
  simp [LRGlobalPageLock.mutexLock, Mutex.lock_of_free h]

variable {v : GlobalValidInfo N}

theorem globalLock_of_free (h : v.mutex.held = false) :
    v.globalLock = .next { v with mutex := { v.mutex with held := true } } := by
  simp [GlobalValidInfo.globalLock, Mutex.lock_of_free h]

theorem isValid_of_free (h : v.mutex.held = false) (n : NodeId N) :
    v.isValid n = .next (v, v.nodeHasNewestPageStatus n) := by
  simp [GlobalValidInfo.isValid, globalLock_of_free h, Mutex.unlock_of_relock h,
    GlobalValidInfo.isValidNoBlock]

theorem getNewestNodeID_of_free (h : v.mutex.held = false) :
    v.getNewestNodeID = .next (v, v.newestNode) := by
  simp [GlobalValidInfo.getNewestNodeID, globalLock_of_free h, Mutex.unlock_of_relock h]

theorem releasePageNoBlock_eq (v : GlobalValidInfo N) (n : NodeId N) :
    v.releasePageNoBlock n = { v.setStatus n false with
      newestNode := if v.newestNode = some n then (v.setStatus n false).hasAnyValid
        else v.newestNode } := by
  by_cases h : v.newestNode = some n <;>
    simp [GlobalValidInfo.releasePageNoBlock, h]

theorem releasePage_of_free (h : v.mutex.held = false) (n : NodeId N) :
    v.releasePage n = .next (v.releasePageNoBlock n) := by
  simp [GlobalValidInfo.releasePage, globalLock_of_free h, releasePageNoBlock_eq,
    Mutex.unlock_of_relock h,
    GlobalValidInfo.hasAnyValid]

/-- `setNodeStatus(n, false)` is `ReleasePage`, except that it unlocks the mutex twice when another
node becomes the newest one. -/
theorem setNodeStatus_of_free (h : v.mutex.held = false) (n : NodeId N) :
    v.setNodeStatus n false = .next { v.releasePageNoBlock n with
      mutex := if v.newestNode = some n ∧ (v.setStatus n false).hasAnyValid ≠ none
        then { v.mutex with strays := v.mutex.strays + 1 } else v.mutex } := by
  have hm : ({ v.mutex with held := true } : Mutex).unlock = v.mutex := Mutex.unlock_of_relock h
  have hm' : v.mutex.unlock = { v.mutex with strays := v.mutex.strays + 1 } := by
    simp [Mutex.unlock, h]
  by_cases hn : v.newestNode = some n
  · cases hany : (v.setStatus n false).hasAnyValid with
    | none | some i =>
      have hany' : (List.finRange N).find?
          (fun i => Function.update v.nodeHasNewestPageStatus n false i) = _ := hany
      simp [GlobalValidInfo.setNodeStatus, globalLock_of_free h, releasePageNoBlock_eq, hn,
        GlobalValidInfo.hasAnyValid, hm,
        hany', hm']
  · simp [GlobalValidInfo.setNodeStatus, globalLock_of_free h, releasePageNoBlock_eq, hn,
      hm]

theorem getValid_of_free (h : v.mutex.held = false) (n : NodeId N) :
    v.getValid n = .next (if v.nodeHasNewestPageStatus n then (v, none, false)
      else ({ v.setStatus n true with newestNode := some (v.newestNode.getD n) }, v.newestNode,
        v.newestNode = none)) := by
  by_cases hn : v.nodeHasNewestPageStatus n
  · simp [GlobalValidInfo.getValid, globalLock_of_free h, hn, Mutex.unlock_of_relock h]
  · cases hw : v.newestNode <;>
      simp [GlobalValidInfo.getValid, globalLock_of_free h, hn, Mutex.unlock_of_relock h, hw]

theorem foldl_setNodeStatusNoBlock (l : List (NodeId N)) (v : GlobalValidInfo N) :
    (l.foldl (fun v m => v.setNodeStatusNoBlock m true) v) =
      { v with nodeHasNewestPageStatus := fun m =>
          decide (m ∈ l) || v.nodeHasNewestPageStatus m } := by
  induction l generalizing v with
  | nil => simp
  | cons k l ih =>
    rw [List.foldl_cons, ih]
    simp only [GlobalValidInfo.setNodeStatusNoBlock, GlobalValidInfo.setStatus, Bool.not_true,
      Bool.false_and, Bool.false_eq_true, ite_false]
    congr 1
    funext m
    by_cases hm : m = k <;> simp [Function.update, hm]

end GPLM
