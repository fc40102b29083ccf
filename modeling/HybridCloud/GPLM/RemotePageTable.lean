import HybridCloud.GPLM.GlobalPageLock

/-!
# The page directory's remote calls

The handlers of src/core/remote_page_table/remote_page_table_rpc.h that make up the lazy-release
protocol on the directory's side: `LRPSLock`, `LRPXLock`, `LRPAnyUnLock` and `BufferReleaseUnlock`
(the `_Localcall` variants have the same bodies).

A lock call that is granted at once and whose page has to come from another node asks that node
with a synchronous `NotifyPushPage` while the directory's mutex is held. `lrpsLock` and `lrpxLock`
stop in front of that call with the answer `LockReply.pushFrom`, and `notifyPushPageDone` is the rest
of the handler. `DirOp` and `Directory.exec` are whole calls, one after the other.
-/

namespace GPLM

open Outcome

/-- The answer of a lock call (`PSLockResponse`, `PXLockResponse`). -/
inductive LockReply (N : Nat) where
  /-- `wait_lock_release`: the request is queued. -/
  | waitLockRelease
  /-- `need_storage_fetch`: granted, read the page from storage at this LLSN. -/
  | storageFetch (lsn : Nat)
  /-- Granted, and `newest_node` pushes the page. -/
  | pushFrom (newestNode : NodeId N)
  /-- Granted, and the node has the newest page already (`newest_node == -1`). -/
  | localCopy
  deriving DecidableEq, Repr

namespace Directory

variable {N : Nat}

/-- What the lock calls do once `LockShared` or `LockExclusive` has granted the lock: find out where
the page comes from. The mutex is released, except in front of a `NotifyPushPage`. -/
def replyGranted (d : Directory N) (n : NodeId N) : Outcome (Directory N × LockReply N) := do
  let (v, newestNode, needFromStorage) ← d.valid.getValid n
  let d := { d with valid := v }
  if needFromStorage then
    return ({ d with gl := d.gl.mutexUnlock }, .storageFetch d.gl.lsnId)
  else match newestNode with
    | some m => return (d, .pushFrom m)
    | none => return ({ d with gl := d.gl.mutexUnlock }, .localCopy)

/-- `LRPSLock`, up to a possible `NotifyPushPage`. -/
def lrpsLock (d : Directory N) (n : NodeId N) :
    Outcome (Directory N × List (DirMsg N) × LockReply N) := do
  let (d, msgs, lockSuccess) ← d.lockShared n
  if lockSuccess then
    let (d, reply) ← d.replyGranted n
    -- a reader that need not read storage has to get the page from some node
    cassert (reply ≠ .localCopy)
    return (d, msgs, reply)
  else return (d, msgs, .waitLockRelease)

/-- `LRPXLock`, up to a possible `NotifyPushPage`. -/
def lrpxLock (d : Directory N) (n : NodeId N) :
    Outcome (Directory N × List (DirMsg N) × LockReply N) := do
  let (d, msgs, lockSuccess) ← d.lockExclusive n
  if lockSuccess then
    let (d, reply) ← d.replyGranted n
    return (d, msgs, reply)
  else return (d, msgs, .waitLockRelease)

/-- The end of a lock call after its `NotifyPushPage`: `UnlockMutex`. -/
def notifyPushPageDone (d : Directory N) : Directory N :=
  { d with gl := d.gl.mutexUnlock }

/-- `BufferReleaseUnlock`: node `n` wants to evict the page, whose LLSN is `lsn`. Returns `agree`. -/
def bufferReleaseUnlock (d : Directory N) (n : NodeId N) (lsn : Nat) :
    Outcome (Directory N × Bool) := do
  let gl ← d.gl.mutexLock
  if gl.checkIsHoldNoBlock n = false then
    return ({ d with gl := gl.mutexUnlock }, false)
  else if gl.isPending = true then
    return ({ d with gl := gl.mutexUnlock }, false)
  else
    let gl := { gl with lsnId := lsn }
    let (v, valid) ← d.valid.isValid n
    cassert (valid = true)
    let v ← v.setNodeStatus n false
    let gl ← gl.unlockAnyNoBlock n
    cassert (gl.requestQueue = [])
    return ({ gl := gl.mutexUnlock, valid := v }, true)

/-- `LRPAnyUnLock`: node `n` gives the page up. If the page goes to the next node(s), they are told
so, the validity table moves to them, and the next round starts. -/
def lrpAnyUnLock (d : Directory N) (n : NodeId N) : Outcome (Directory N × List (DirMsg N)) := do
  let gl ← d.gl.unlockAny n
  let (gl, needTransfer) ← gl.transferControl
  if needTransfer then
    let v ← d.valid.globalLock
    match gl.holdLockNodes with
    | [] => abort
    | front :: others =>
      let (d, granted) ← { gl := gl, valid := v : Directory N }.sendComputenodeLockSuccess
      let v := d.valid.releasePageNoBlock n
      let v := (front :: others).foldl (fun v m => v.setNodeStatusNoBlock m true) v
      let v := v.setValidAndUpdateNewest front
      let (d, pended) ← { d with valid := v }.transferPending
      return (d, granted ++ pended)
  else
    let v ← d.valid.releasePage n
    return ({ gl := gl.mutexUnlock, valid := v }, [])

end Directory

/-- The calls on the directory. -/
inductive DirOp (N : Nat) where
  | lrpsLock (n : NodeId N)
  | lrpxLock (n : NodeId N)
  | lrpAnyUnLock (n : NodeId N)
  | bufferReleaseUnlock (n : NodeId N) (lsn : Nat)

/-- The end of a lock call, given its answer. -/
def LockReply.finish {N : Nat} (d : Directory N) : LockReply N → Directory N
  | .pushFrom _ => d.notifyPushPageDone
  | _ => d

/-- A call, with its answer given. -/
def Directory.exec {N : Nat} (d : Directory N) : DirOp N → Outcome (Directory N)
  | .lrpsLock n => do
    let (d, _, reply) ← d.lrpsLock n
    return reply.finish d
  | .lrpxLock n => do
    let (d, _, reply) ← d.lrpxLock n
    return reply.finish d
  | .lrpAnyUnLock n => do
    let (d, _) ← d.lrpAnyUnLock n
    return d
  | .bufferReleaseUnlock n lsn => do
    let (d, _) ← d.bufferReleaseUnlock n lsn
    return d

end GPLM
