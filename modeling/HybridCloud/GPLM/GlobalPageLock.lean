import HybridCloud.GPLM.GlobalValidTable

/-!
# The directory lock of one page

`LR_GlobalPageLock` (src/core/GPLM/global_LR_page_lock.h) is the entry of the lazy-release page
directory for one page: the nodes that hold the page, the requests that wait for it, and the node
`src_node_id` that the current round of Pending messages works for. The functions follow the
source branch by branch; an `assert` is `Outcome.cassert`, a `mutex.lock()` waits.

The messages that the directory sends are returned as a list. A Pending call to the directory's own
node is made by the same thread after the mutex is released; here it is a message like the others.
-/

namespace GPLM

open Outcome

/-- The value of `lock` that marks an exclusive holder. -/
def EXCLUSIVE_LOCKED : Nat := 0xFF00000000000000

/-- A request that waits. -/
structure LRRequest (N : Nat) where
  nodeId : NodeId N
  xlock : Bool
  deriving DecidableEq, Repr

/-- What the directory sends to compute nodes without waiting for an answer. -/
inductive DirMsg (N : Nat) where
  /-- Give the page up; `dest` is the node to push it to, if this holder is the one to push. -/
  | pending (node : NodeId N) (xpending : Bool) (dest : Option (NodeId N))
  /-- The lock is granted; `destNodeIds` are the nodes granted in the same round. -/
  | lockSuccess (node : NodeId N) (xlock isNewest : Bool) (destNodeIds : List (NodeId N))
  deriving DecidableEq, Repr

/-- The lock of a page. -/
structure LRGlobalPageLock (N : Nat) where
  /-- Number of holders, or `EXCLUSIVE_LOCKED`. -/
  lock : Nat
  holdLockNodes : List (NodeId N)
  /-- Whether the holders have been asked to give the page up. -/
  isPending : Bool
  /-- The node the current round of Pending messages works for. -/
  srcNodeId : Option (NodeId N)
  /-- The LLSN of the page when a holder last evicted it. -/
  lsnId : Nat
  /-- The waiting requests, oldest first. -/
  requestQueue : List (LRRequest N)
  sRequestNum : Int
  xRequestNum : Int
  mutex : Mutex

/-- The lock of a page and its entry in the validity table. -/
structure Directory (N : Nat) where
  gl : LRGlobalPageLock N
  valid : GlobalValidInfo N

namespace LRGlobalPageLock

variable {N : Nat}

/-- A new lock after `Reset()`. -/
def reset : LRGlobalPageLock N where
  lock := 0
  holdLockNodes := []
  isPending := false
  srcNodeId := none
  lsnId := 0
  requestQueue := []
  sRequestNum := 0
  xRequestNum := 0
  mutex := .free

/-- `mutexLock`. -/
def mutexLock (g : LRGlobalPageLock N) : Outcome (LRGlobalPageLock N) := do
  let m ← g.mutex.lock
  return { g with mutex := m }

/-- `mutexUnlock` (also `UnlockMutex`). -/
def mutexUnlock (g : LRGlobalPageLock N) : LRGlobalPageLock N :=
  { g with mutex := g.mutex.unlock }

/-- The node becomes a holder. -/
def addHoldLockNode (g : LRGlobalPageLock N) (n : NodeId N) : Outcome (LRGlobalPageLock N) := do
  cassert (n ∉ g.holdLockNodes)
  return { g with holdLockNodes := g.holdLockNodes ++ [n] }

/-- Is the node a holder? -/
def checkIsHoldNoBlock (g : LRGlobalPageLock N) (n : NodeId N) : Bool :=
  n ∈ g.holdLockNodes

/-- `hold_lock_nodes.remove(n)`. -/
def removeHoldLockNode (g : LRGlobalPageLock N) (n : NodeId N) : LRGlobalPageLock N :=
  { g with holdLockNodes := g.holdLockNodes.filter fun m => m ≠ n }

/-- `UnlockAnyNoBlock`: node `n` stops holding the page. -/
def unlockAnyNoBlock (g : LRGlobalPageLock N) (n : NodeId N) : Outcome (LRGlobalPageLock N) := do
  if g.lock = EXCLUSIVE_LOCKED then
    cassert (g.holdLockNodes.length = 1)
    cassert (g.holdLockNodes.head? = some n)
    return { g with lock := 0 }.removeHoldLockNode n
  else
    cassert (g.lock = g.holdLockNodes.length)
    cassert (g.holdLockNodes.count n = 1)
    let g := { g with lock := g.lock - 1 }.removeHoldLockNode n
    cassert (g.lock = g.holdLockNodes.length)
    return g

/-- `UnlockAny`: the same with the mutex taken, for the caller to release. -/
def unlockAny (g : LRGlobalPageLock N) (n : NodeId N) : Outcome (LRGlobalPageLock N) := do
  let g ← g.mutexLock
  g.unlockAnyNoBlock n

/-- The loop of `TransferControl` that grants every queued shared request. The second component is
what stays in the queue. -/
def grantReaders : List (LRRequest N) → LRGlobalPageLock N →
    Outcome (LRGlobalPageLock N × List (LRRequest N))
  | [], g => return (g, [])
  | r :: rs, g =>
    if r.xlock = false then do
      let g ← { g with lock := g.lock + 1 }.addHoldLockNode r.nodeId
      grantReaders rs { g with sRequestNum := g.sRequestNum - 1 }
    else do
      let (g, kept) ← grantReaders rs g
      return (g, r :: kept)

/-- `TransferControl`: after an unlock, hand the page to the next request(s) if it is free, or to
the only remaining reader if it waits for an upgrade. Returns whether anything was granted. -/
def transferControl (g : LRGlobalPageLock N) : Outcome (LRGlobalPageLock N × Bool) := do
  cassert (g.lock ≠ EXCLUSIVE_LOCKED)
  match g.requestQueue with
  | [] =>
    cassert (g.isPending = false)
    cassert (g.sRequestNum = 0 ∧ g.xRequestNum = 0)
    return (g, false)
  | request :: rest =>
    if g.lock = 0 then
      cassert (g.isPending = true)
      cassert (g.holdLockNodes.length = 0)
      cassert (g.srcNodeId ≠ none)
      cassert (some request.nodeId = g.srcNodeId)
      let g := { g with requestQueue := rest }
      if request.xlock then
        let g ← { g with lock := EXCLUSIVE_LOCKED }.addHoldLockNode request.nodeId
        return ({ g with xRequestNum := g.xRequestNum - 1, isPending := false }, true)
      else
        let g ← { g with lock := g.lock + 1 }.addHoldLockNode request.nodeId
        let g := { g with sRequestNum := g.sRequestNum - 1 }
        let (g, kept) ←
          if g.sRequestNum > 0 then grantReaders g.requestQueue g
          else pure (g, g.requestQueue)
        let g := { g with requestQueue := kept, isPending := false }
        cassert (g.sRequestNum = 0)
        return (g, true)
    else
      cassert (g.isPending = true)
      cassert (0 < g.holdLockNodes.length)
      if g.lock = 1 ∧ g.holdLockNodes.head? = some request.nodeId then
        return ({ g with lock := EXCLUSIVE_LOCKED, xRequestNum := g.xRequestNum - 1,
                         isPending := false, requestQueue := rest }, true)
      else return (g, false)

end LRGlobalPageLock

namespace Directory

variable {N : Nat}

/-- The directory of a page nobody has fetched. -/
def init : Directory N where
  gl := .reset
  valid := .onlyInStorage

/-- `SetComputenodePending`: start a round for node `n`. Every holder but `n` is told to give the
page up, and one of them to push it to `n`, unless `n` has it already. Releases the mutex. -/
def setComputenodePending (d : Directory N) (n : NodeId N) (xPending : Bool) :
    Outcome (Directory N × List (DirMsg N)) := do
  let (v, transNodeId) ←
    if xPending then do
      cassert (d.gl.holdLockNodes.length = 1)
      pure (d.valid, d.gl.holdLockNodes.head?)
    else do
      cassert (1 ≤ d.gl.holdLockNodes.length)
      let (v, valid) ← d.valid.isValid n
      if valid = false then v.getNewestNodeID else pure (v, none)
  cassert (d.gl.srcNodeId = none)
  let msgs := (d.gl.holdLockNodes.filter fun h => h ≠ n).map fun h =>
    .pending h xPending (if some h = transNodeId then some n else none)
  return ({ gl := { d.gl with srcNodeId := some n }.mutexUnlock, valid := v }, msgs)

/-- `LockShared`. The mutex stays taken when the lock is granted at once. -/
def lockShared (d : Directory N) (n : NodeId N) :
    Outcome (Directory N × List (DirMsg N) × Bool) := do
  let gl ← d.gl.mutexLock
  if gl.lock ≠ EXCLUSIVE_LOCKED ∧ gl.requestQueue = [] then
    let gl ← { gl with lock := gl.lock + 1 }.addHoldLockNode n
    cassert (gl.lock = gl.holdLockNodes.length)
    cassert (gl.holdLockNodes.count n = 1)
    return ({ d with gl := gl }, [], true)
  else if gl.requestQueue = [] then
    cassert (gl.lock = EXCLUSIVE_LOCKED)
    let gl := { gl with requestQueue := gl.requestQueue ++ [LRRequest.mk n false], isPending := true,
                        sRequestNum := gl.sRequestNum + 1 }
    cassert (gl.sRequestNum = 1)
    let (d, msgs) ← { d with gl := gl }.setComputenodePending n true
    return (d, msgs, false)
  else
    cassert (gl.isPending = true)
    cassert (gl.lock ≠ 0)
    let gl := { gl with requestQueue := gl.requestQueue ++ [LRRequest.mk n false],
                        sRequestNum := gl.sRequestNum + 1 }
    return ({ d with gl := gl.mutexUnlock }, [], false)

/-- `LockExclusive`. The mutex stays taken when the lock is granted at once. -/
def lockExclusive (d : Directory N) (n : NodeId N) :
    Outcome (Directory N × List (DirMsg N) × Bool) := do
  let gl ← d.gl.mutexLock
  if gl.lock ≠ 0 ∧ gl.isPending = false then
    cassert (gl.requestQueue = [])
    cassert (gl.sRequestNum = 0 ∧ gl.xRequestNum = 0)
    if gl.lock = 1 ∧ gl.holdLockNodes.head? = some n then
      -- the only reader upgrades in place
      return ({ d with gl := { gl with lock := EXCLUSIVE_LOCKED } }, [], true)
    else
      let gl := { gl with requestQueue := gl.requestQueue ++ [LRRequest.mk n true], isPending := true,
                          xRequestNum := gl.xRequestNum + 1 }
      if gl.lock = EXCLUSIVE_LOCKED then
        cassert (gl.holdLockNodes.length = 1)
        cassert (gl.holdLockNodes.head? ≠ some n)
      let (d, msgs) ←
        { d with gl := gl }.setComputenodePending n (gl.lock = EXCLUSIVE_LOCKED)
      return (d, msgs, false)
  else if gl.lock = 0 ∧ gl.isPending = false then
    cassert (gl.requestQueue = [])
    cassert (gl.sRequestNum = 0 ∧ gl.xRequestNum = 0)
    let gl ← { gl with lock := EXCLUSIVE_LOCKED }.addHoldLockNode n
    cassert (gl.holdLockNodes.length = 1)
    cassert (gl.holdLockNodes.head? = some n)
    return ({ d with gl := gl }, [], true)
  else
    cassert (gl.isPending = true)
    cassert (0 < gl.requestQueue.length)
    let gl := { gl with requestQueue := gl.requestQueue ++ [LRRequest.mk n true],
                        xRequestNum := gl.xRequestNum + 1 }
    return ({ d with gl := gl.mutexUnlock }, [], false)

/-- The loop of `SendComputenodeLockSuccess` over the new holders. The node the pages were pushed to
is told to push it on to the others; `src` is reset once that node has been served. -/
def lockSuccessMsgs (xlock : Bool) (v : GlobalValidInfo N) (holders : List (NodeId N)) :
    List (NodeId N) → Option (NodeId N) → List (DirMsg N) × Option (NodeId N)
  | [], src => ([], src)
  | n :: ns, src =>
    if some n = src then
      let (msgs, src') := lockSuccessMsgs xlock v holders ns none
      (.lockSuccess n xlock (v.isValidNoBlock n) (holders.filter fun m => some m ≠ src) :: msgs,
        src')
    else
      let (msgs, src') := lockSuccessMsgs xlock v holders ns src
      (.lockSuccess n xlock false [] :: msgs, src')

/-- The new holders are told. -/
def sendComputenodeLockSuccess (d : Directory N) : Outcome (Directory N × List (DirMsg N)) := do
  cassert (d.gl.holdLockNodes ≠ [])
  let (msgs, src) := lockSuccessMsgs (d.gl.lock = EXCLUSIVE_LOCKED) d.valid d.gl.holdLockNodes
    d.gl.holdLockNodes d.gl.srcNodeId
  return ({ d with gl := { d.gl with srcNodeId := src } }, msgs)

/-- `TransferPending`: start the next round if requests are left. Releases the mutex. -/
def transferPending (d : Directory N) : Outcome (Directory N × List (DirMsg N)) := do
  if d.gl.isPending = true then
    return ({ d with gl := d.gl.mutexUnlock }, [])
  else match d.gl.requestQueue with
    | [] => return ({ d with gl := d.gl.mutexUnlock }, [])
    | request :: _ =>
      if request.xlock then
        cassert (d.gl.xRequestNum > 0)
        let d := { d with gl := { d.gl with isPending := true } }
        if d.gl.lock = EXCLUSIVE_LOCKED then
          cassert (d.gl.holdLockNodes.length = 1)
          cassert (d.gl.holdLockNodes.head? ≠ some request.nodeId)
        d.setComputenodePending request.nodeId (d.gl.lock = EXCLUSIVE_LOCKED)
      else
        cassert (d.gl.sRequestNum > 0)
        cassert (d.gl.lock = EXCLUSIVE_LOCKED)
        cassert (d.gl.holdLockNodes.length = 1)
        cassert (d.gl.holdLockNodes.head? ≠ some request.nodeId)
        { d with gl := { d.gl with isPending := true } }.setComputenodePending request.nodeId true

end Directory

end GPLM
