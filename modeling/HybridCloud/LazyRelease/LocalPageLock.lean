import HybridCloud.GPLM.RemotePageTable

/-!
# The local lock of one page on one node

`LRLocalPageLock` (src/core/LPLM/local_LR_page_lock.h) is what a compute node keeps about one page:
the local readers or the local writer, the mode in which the directory has granted the page to the
node, and the flags through which the handlers of the node's remote calls talk to the thread that
fetches the page.

A function that returns with the mutex taken leaves `mutex.held` set, and its caller releases it. The
retry loops of `LockShared` and `LockExclusive` wait until an iteration can succeed; a wait on the
condition variable waits for its predicate.
-/

namespace LazyRelease

open GPLM Outcome

/-- The mode in which a node holds a page from the directory (`LockMode`). -/
inductive LockMode where
  | none
  | shared
  | exclusive
  deriving DecidableEq, Repr

/-- The lock that a node keeps for a page. -/
structure LRLocalPageLock (N : Nat) where
  /-- Number of local readers, or `EXCLUSIVE_LOCKED`. -/
  lock : Nat
  remoteMode : LockMode
  /-- The directory wants the page back. -/
  isPending : Bool
  /-- A thread of this node is asking the directory. -/
  isGranting : Bool
  /-- `LockSuccess` has arrived. -/
  successReturn : Bool
  /-- The granted page still has to be pushed. -/
  needWait : Bool
  /-- The pushed page has arrived. -/
  updateSuccess : Bool
  /-- The node to push the page to when it is released. -/
  destNodeId : Option (NodeId N)
  /-- The nodes granted in the same round, to push the page to on arrival. -/
  pushList : List (NodeId N)
  /-- A thread is evicting the page. -/
  isEvicting : Bool
  /-- The node has given the page back. -/
  isReleased : Bool
  mutex : Mutex
  deriving DecidableEq, Repr

namespace LRLocalPageLock

variable {N : Nat}

/-- The node does not have the page. -/
def init : LRLocalPageLock N where
  lock := 0
  remoteMode := .none
  isPending := false
  isGranting := false
  successReturn := false
  needWait := false
  updateSuccess := false
  destNodeId := none
  pushList := []
  isEvicting := false
  isReleased := true
  mutex := .free

/-- `mutex.lock()` (`lockMtx`). -/
def lockMtx (l : LRLocalPageLock N) : Outcome (LRLocalPageLock N) := do
  let m ← l.mutex.lock
  return { l with mutex := m }

/-- `mutex.unlock()` (`UnlockMtx`, `UnlockRemoteOK`). -/
def unlockMtx (l : LRLocalPageLock N) : LRLocalPageLock N :=
  { l with mutex := l.mutex.unlock }

/-- One more local reader. A node has fewer than `EXCLUSIVE_LOCKED` threads, so the count does not
reach the value that marks a writer. -/
def addReader (l : LRLocalPageLock N) : Outcome (LRLocalPageLock N) := do
  await (l.lock + 1 < EXCLUSIVE_LOCKED)
  return { l with lock := l.lock + 1 }

/-- `LockShared`. Returns whether the directory has to be asked. -/
def lockShared (l : LRLocalPageLock N) : Outcome (LRLocalPageLock N × Bool) := do
  let l ← l.lockMtx
  await (l.isGranting = false ∧ l.isPending = false ∧ l.isEvicting = false)
  match l.remoteMode with
  | .exclusive =>
    await (l.lock ≠ EXCLUSIVE_LOCKED)
    let l ← l.addReader
    return (l.unlockMtx, false)
  | .shared =>
    cassert (l.lock ≠ EXCLUSIVE_LOCKED)
    let l ← l.addReader
    return (l.unlockMtx, false)
  | .none =>
    let l ← l.addReader
    return ({ l with isGranting := true }.unlockMtx, true)

/-- `LockExclusive`. Returns whether the directory has to be asked. -/
def lockExclusive (l : LRLocalPageLock N) : Outcome (LRLocalPageLock N × Bool) := do
  let l ← l.lockMtx
  await (l.isGranting = false ∧ l.isPending = false ∧ l.isEvicting = false)
  await (l.lock = 0)
  match l.remoteMode with
  | .exclusive => return ({ l with lock := EXCLUSIVE_LOCKED }.unlockMtx, false)
  | .shared | .none =>
    return ({ l with lock := EXCLUSIVE_LOCKED, isGranting := true }.unlockMtx, true)

/-! A lock call holds the mutex from its tests to its stores. When another thread unlocks the mutex in
between, the stores are made all the same. -/

/-- `LockShared` or `LockExclusive` after its tests. -/
structure LockCall where
  /-- Whether it is `LockExclusive`. -/
  x : Bool
  /-- `lock_remote`, as the branch that was taken sets it. -/
  lockRemote : Bool
  deriving DecidableEq

/-- The tests of `LockShared` or `LockExclusive`. Returns with the mutex taken. -/
def lockTests (l : LRLocalPageLock N) (x : Bool) : Outcome (LRLocalPageLock N × LockCall) := do
  let l ← l.lockMtx
  await (l.isGranting = false ∧ l.isPending = false ∧ l.isEvicting = false)
  if x then
    await (l.lock = 0)
    return (l, ⟨true, l.remoteMode ≠ .exclusive⟩)
  else
    await (l.remoteMode = .exclusive → l.lock ≠ EXCLUSIVE_LOCKED)
    cassert (l.remoteMode = .shared → l.lock ≠ EXCLUSIVE_LOCKED)
    await (l.lock + 1 < EXCLUSIVE_LOCKED)
    return (l, ⟨false, l.remoteMode = .none⟩)

/-- The stores of `LockShared` or `LockExclusive`, and its `mutex.unlock()`. -/
def lockStores (l : LRLocalPageLock N) (c : LockCall) : LRLocalPageLock N :=
  { l with
    lock := if c.x then EXCLUSIVE_LOCKED else l.lock + 1
    isGranting := l.isGranting || c.lockRemote }.unlockMtx

/-- A pushed page has arrived. -/
def remotePushPageSuccess (l : LRLocalPageLock N) : Outcome (LRLocalPageLock N) := do
  let l ← l.lockMtx
  cassert (l.isGranting = true)
  return { l with updateSuccess := true }.unlockMtx

/-- `RemoteNotifyLockSuccess`; returns with the mutex taken. -/
def remoteNotifyLockSuccess (l : LRLocalPageLock N) (xlock isNewest : Bool) :
    Outcome (LRLocalPageLock N) := do
  let l ← l.lockMtx
  cassert (l.isGranting = true)
  cassert (if xlock then l.lock = EXCLUSIVE_LOCKED else l.lock > 0)
  return { l with successReturn := true, needWait := !isNewest }

/-- The page is to be pushed to `dest`. -/
def addToPushListNoBlock (l : LRLocalPageLock N) (dest : NodeId N) : LRLocalPageLock N :=
  { l with pushList := l.pushList ++ [dest] }

/-- `TryGetPushData`: wait for the page after a lock call that was granted at once. -/
def tryGetPushData (l : LRLocalPageLock N) : Outcome (LRLocalPageLock N) := do
  let l ← l.lockMtx
  cassert (l.isGranting = true)
  await (l.updateSuccess = true)
  return { l with updateSuccess := false }.unlockMtx

/-- `TryRemoteLockSuccess`: wait for the grant, and for the page unless the node has it already. -/
def tryRemoteLockSuccess (l : LRLocalPageLock N) : Outcome (LRLocalPageLock N) := do
  let l ← l.lockMtx
  cassert (l.isGranting = true)
  await (l.successReturn = true)
  if l.needWait = false then
    cassert (l.updateSuccess = false)
    return { l with successReturn := false }.unlockMtx
  else
    await (l.updateSuccess = true)
    return { l with updateSuccess := false, needWait := false, successReturn := false }.unlockMtx

/-- `getPushList`: take the list out. -/
def getPushList (l : LRLocalPageLock N) : Outcome (LRLocalPageLock N × List (NodeId N)) := do
  let l ← l.lockMtx
  return ({ l with pushList := [] }.unlockMtx, l.pushList)

/-- An eviction of an idle page begins. -/
def tryBeginEvict (l : LRLocalPageLock N) : Outcome (LRLocalPageLock N × Bool) := do
  let l ← l.lockMtx
  if l.isEvicting = true ∨ l.isReleased = true then
    return (l.unlockMtx, false)
  else if l.lock = 0 ∧ l.isGranting = false ∧ l.isPending = false then
    return ({ l with isEvicting := true }.unlockMtx, true)
  else return (l.unlockMtx, false)

/-- The eviction ends. -/
def endEvict (l : LRLocalPageLock N) : Outcome (LRLocalPageLock N) := do
  let l ← l.lockMtx
  cassert (l.isEvicting = true)
  return { l with isEvicting := false }.unlockMtx

/-- `LockRemoteOK`: the fetching thread has the lock and the page. -/
def lockRemoteOK (l : LRLocalPageLock N) : Outcome (LRLocalPageLock N) := do
  let l ← l.lockMtx
  cassert (l.isGranting = true)
  return { l with
    remoteMode := if l.lock = EXCLUSIVE_LOCKED then .exclusive else .shared
    isGranting := false, isReleased := false }.unlockMtx

/-- `tryUnlockShared`: does the release of this reader give the page back to the directory (`1` or
`2`, after the mode it is held in) or not (`0`)? Returns with the mutex taken. -/
def tryUnlockShared (l : LRLocalPageLock N) : Outcome (LRLocalPageLock N × Nat) := do
  let l ← l.lockMtx
  cassert (l.lock > 0)
  cassert (l.lock ≠ EXCLUSIVE_LOCKED)
  cassert (l.isGranting = false)
  if l.lock - 1 = 0 ∧ l.isPending = true then
    return ({ l with isReleased := true }, if l.remoteMode = .shared then 1 else 2)
  else return (l, 0)

/-- A reader leaves; the last one gives a page back that is wanted. -/
def unlockShared (l : LRLocalPageLock N) : LRLocalPageLock N :=
  let l := { l with lock := l.lock - 1 }
  if l.lock = 0 ∧ l.isPending = true then { l with isPending := false, remoteMode := .none } else l

/-- `tryUnlockExclusive`. Returns with the mutex taken. -/
def tryUnlockExclusive (l : LRLocalPageLock N) : Outcome (LRLocalPageLock N × Nat) := do
  let l ← l.lockMtx
  cassert (l.remoteMode = .exclusive)
  cassert (l.lock = EXCLUSIVE_LOCKED)
  cassert (l.isGranting = false)
  if l.isPending = true then return ({ l with isReleased := true }, 2) else return (l, 0)

/-- The writer leaves. -/
def unlockExclusive (l : LRLocalPageLock N) : LRLocalPageLock N :=
  let l := { l with lock := 0 }
  if l.isPending = true then { l with isPending := false, remoteMode := .none } else l

/-- `UnlockAny`, at the end of an eviction, together with the `UnlockRemoteOK` that follows it when
the node still held the page. -/
def unlockAny (l : LRLocalPageLock N) : Outcome (LRLocalPageLock N) := do
  let l ← l.lockMtx
  cassert (l.lock = 0)
  cassert (l.isGranting = false ∧ l.isPending = false)
  return { l with remoteMode := .none, isReleased := true }.unlockMtx

/-- `Pending`: the directory wants the page back. Returns `0` if the node keeps it for now, and
otherwise the mode it is given up in. Returns with the mutex taken. -/
def pending (l : LRLocalPageLock N) (xpending : Bool) : Outcome (LRLocalPageLock N × Nat) := do
  let l ← l.lockMtx
  cassert (l.isPending = false)
  match l.isGranting, l.remoteMode with
  | false, .none => abort
  | false, _ =>
    if l.lock = 0 then
      return ({ l with isReleased := true, remoteMode := .none },
        if l.remoteMode = .shared then 1 else 2)
    else return ({ l with isPending := true }, 0)
  | true, .shared =>
    -- an upgrade is on its way: give the shared lock back unless the upgrade was granted already
    cassert (l.lock = EXCLUSIVE_LOCKED)
    if xpending then return ({ l with isPending := true }, 0)
    else return ({ l with remoteMode := .none }, 1)
  | true, .none => return ({ l with isPending := true }, 0)
  | true, .exclusive => abort

/-- `getUnlockType`; returns with the mutex taken. -/
def getUnlockType (l : LRLocalPageLock N) : Outcome (LRLocalPageLock N × Nat) := do
  let l ← l.lockMtx
  return (l, match l.remoteMode with
    | .none => 0
    | .shared => 1
    | .exclusive => 2)

end LRLocalPageLock

end LazyRelease
