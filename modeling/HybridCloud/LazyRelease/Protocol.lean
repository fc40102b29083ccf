import HybridCloud.LazyRelease.LocalPageLock
import HybridCloud.Lib.Transition

/-!
# The lazy-release protocol for one page

All compute nodes, the directory and the storage node, working on one heap page. A node runs any
number of threads: fetches and releases of the page (src/compute_server/lazyrelease_server.cc),
evictions (`put_page_into_buffe_lazy` in src/compute_server/server.h) and the handlers of its remote
calls (src/compute_server/server.cc). The state lists, per node, what these threads are in the middle
of and which messages are on their way to it; a step runs one member function of the local lock, or
one call on the directory. Any thread and any message may be next.

The mutex of a local lock is taken and released as in the source: a release or a Pending handler that
gives the page back keeps it across its call to the directory. A lock call is one step, which takes the
mutex and gives it back; in `LockCalls` it can be interrupted.

A logged write raises the LLSN of the page and appends its effect to the log. Storage holds the image
that results from some part of the log, and a read at an LLSN returns any such image that is not
older. `cur` is a ghost: the image as the last exclusive holder left it.
-/

namespace LazyRelease

open GPLM Outcome

/-- A page image: its LLSN and its contents. -/
structure Page (α : Type) where
  llsn : Nat
  data : α
  deriving DecidableEq

/-- Where a fetch that had to ask the directory is. -/
inductive FetchStage (N : Nat) where
  /-- `LRPSLock` or `LRPXLock` is on its way. -/
  | asking
  /-- The directory's handler is in `NotifyPushPage` to this node, with its mutex held. -/
  | notifying (src : NodeId N)
  /-- The directory has answered. -/
  | answered (reply : LockReply N)
  /-- `TryRemoteLockSuccess` has returned. -/
  | granted
  /-- The lock and the page are there; the page is still to be pushed to these nodes. -/
  | pushing (pushList : List (NodeId N))
  deriving DecidableEq

/-- A call of `rpc_lazy_fetch_s_page` or `rpc_lazy_fetch_x_page` that asks the directory. -/
structure Fetch (N : Nat) where
  /-- Whether it is `rpc_lazy_fetch_x_page`. -/
  x : Bool
  stage : FetchStage N
  deriving DecidableEq

instance {N : Nat} : LawfulBEq (Fetch N) := inferInstance

/-- A call of `rpc_lazy_release_s_page` or `rpc_lazy_release_x_page` after `tryUnlock*`. -/
structure Release where
  /-- Whether it is `rpc_lazy_release_x_page`. -/
  x : Bool
  /-- What `tryUnlock*` returned. -/
  unlockRemote : Nat
  /-- Whether `dest_node_id` has been looked at, and if so whether a push was sent. -/
  pushed : Option Bool
  deriving DecidableEq

/-- A Pending request on its way. -/
structure PendingRequest (N : Nat) where
  xpending : Bool
  /-- The node to push the page to. -/
  dest : Option (NodeId N)
  deriving DecidableEq

/-- A Pending handler after `LRLocalPageLock::Pending`. -/
structure PendingHandler (N : Nat) where
  /-- What `Pending` returned. -/
  unlockRemote : Nat
  dest : Option (NodeId N)
  deriving DecidableEq

/-- A call of `LRPAnyUnLock` that a release or a Pending handler waits for. -/
structure UnlockCall where
  /-- Whether a release made the call; it drops the page from the buffer afterwards. -/
  fromRelease : Bool
  /-- Whether the directory has served the call. -/
  served : Bool
  deriving DecidableEq

/-- A LockSuccess request on its way. -/
structure LockSuccessRequest (N : Nat) where
  /-- `xlock_succeess` -/
  xlock : Bool
  isNewest : Bool
  destNodeIds : List (NodeId N)
  deriving DecidableEq

/-- Where an eviction of the page is. -/
inductive Evict where
  /-- `TryBeginEvict` has succeeded. -/
  | chosen
  /-- `BufferReleaseUnlock` is on its way, with the LLSN of the page. -/
  | asking (lsn : Nat)
  /-- The directory has agreed. -/
  | agreed
  /-- Another page has taken the frame. -/
  | replaced
  /-- Only `EndEvict` is left. -/
  | ending
  deriving DecidableEq

/-- One compute node, as far as one page is concerned. -/
structure Node (N : Nat) (α : Type) where
  lk : LRLocalPageLock N
  buffer : Option (Page α)
  fetches : List (Fetch N)
  /-- How many threads use the page after `rpc_lazy_fetch_s_page`. -/
  readers : Nat
  /-- How many threads use the page after `rpc_lazy_fetch_x_page`. -/
  writers : Nat
  /-- The releases between `tryUnlock*` and `Unlock*`. -/
  releases : List Release
  /-- Pending requests on their way to the node. -/
  pendings : List (PendingRequest N)
  /-- Pending handlers that have called `Pending`. -/
  handlers : List (PendingHandler N)
  /-- Calls of `LRPAnyUnLock`. -/
  unlocks : List UnlockCall
  /-- Pushed pages on their way to the node. -/
  pushes : List (Page α)
  /-- How many PushPage handlers are between the buffer pool and `RemotePushPageSuccess`. -/
  arrived : Nat
  /-- Ghost: how many pushed pages have arrived since the node last asked the directory. -/
  received : Nat
  /-- LockSuccess requests on their way to the node. -/
  grants : List (LockSuccessRequest N)
  /-- Evictions of the page. -/
  evicts : List Evict

/-- The system, for one page. -/
structure State (N : Nat) (α : Type) where
  dir : Directory N
  nodes : NodeId N → Node N α
  /-- The image in storage before the first logged write. -/
  base : Page α
  /-- The log of the page: the LLSN and the effect of each logged write. -/
  log : List (Nat × (α → α))
  /-- Ghost: the image left by the last exclusive holder. -/
  cur : Page α

variable {N : Nat} {α : Type}

/-- The node does not have the page. -/
def Node.init : Node N α where
  lk := .init
  buffer := none
  fetches := []
  readers := 0
  writers := 0
  releases := []
  pendings := []
  handlers := []
  unlocks := []
  pushes := []
  arrived := 0
  received := 0
  grants := []
  evicts := []

/-- All locks are free and the page is in storage only. -/
def State.init (base : Page α) : State N α where
  dir := .init
  nodes := fun _ => .init
  base := base
  log := []
  cur := base

/-- The image that results from log records. -/
def replay (base : Page α) (log : List (Nat × (α → α))) : Page α :=
  log.foldl (fun p r => { llsn := r.1, data := r.2 p.data }) base

/-- Which Pending request a directory message carries to node `n`. -/
def pendingFor (n : NodeId N) : DirMsg N → Option (PendingRequest N)
  | .pending m x dest => if m = n then some ⟨x, dest⟩ else none
  | .lockSuccess _ _ _ _ => none

/-- Which LockSuccess request a directory message carries to node `n`. -/
def successFor (n : NodeId N) : DirMsg N → Option (LockSuccessRequest N)
  | .lockSuccess m x newest dests => if m = n then some ⟨x, newest, dests⟩ else none
  | .pending _ _ _ => none

/-- The directory's messages are on their way to node `n`. -/
def Node.receive (nd : Node N α) (n : NodeId N) (msgs : List (DirMsg N)) : Node N α :=
  { nd with pendings := nd.pendings ++ msgs.filterMap (pendingFor n)
            grants := nd.grants ++ msgs.filterMap (successFor n) }

/-- One node changes. -/
def State.setNode (s : State N α) (n : NodeId N) (nd : Node N α) : State N α :=
  { s with nodes := Function.update s.nodes n nd }

/-- The system after a call on the directory by node `n`, whose own record becomes `nd`. -/
def State.afterDir (s : State N α) (d : Directory N) (msgs : List (DirMsg N)) (n : NodeId N)
    (nd : Node N α) : State N α :=
  { s with dir := d, nodes := fun m => (Function.update s.nodes n nd m).receive m msgs }

/-- `PushPageToOther`: send the page in node `n`'s buffer to `dest`. -/
def State.push (s : State N α) (n dest : NodeId N) : Outcome (State N α) :=
  match (s.nodes n).buffer with
  | none => abort
  | some page => do
    cassert (dest ≠ n)
    return s.setNode dest { s.nodes dest with pushes := (s.nodes dest).pushes ++ [page] }

/-- `PushPageToOther` to a node that may not be set. -/
def State.pushTo (s : State N α) (n : NodeId N) : Option (NodeId N) → Outcome (State N α)
  | none => return s
  | some dest => s.push n dest

/-- A fetch moves on. -/
def Node.setStage (nd : Node N α) (f : Fetch N) (stage : FetchStage N) : Node N α :=
  { nd with fetches := { f with stage := stage } :: nd.fetches.erase f }

/-- The steps of threads and messages. -/
inductive Action (N : Nat) (α : Type) where
  /-- A thread calls `LockShared` or `LockExclusive`. -/
  | lock (n : NodeId N) (x : Bool)
  /-- The directory serves `LRPSLock` or `LRPXLock`. -/
  | dirLock (n : NodeId N) (f : Fetch N)
  /-- The node that was asked by `NotifyPushPage` pushes the page. -/
  | notifyPush (n : NodeId N) (f : Fetch N)
  /-- The page is read from storage, after the first `k` log records. -/
  | readStorage (n : NodeId N) (f : Fetch N) (k : Nat)
  /-- `TryGetPushData` returns. -/
  | gotPush (n : NodeId N) (f : Fetch N)
  /-- `TryRemoteLockSuccess` returns. -/
  | gotLock (n : NodeId N) (f : Fetch N)
  /-- `getPushList`. -/
  | takePushList (n : NodeId N) (f : Fetch N)
  /-- The fetching thread pushes the page to the next node of its list. -/
  | pushNext (n : NodeId N) (f : Fetch N)
  /-- `LockRemoteOK`: the fetch returns. -/
  | fetchDone (n : NodeId N) (f : Fetch N)
  /-- A writer changes the page and logs the change. -/
  | write (n : NodeId N) (f : α → α) (llsn : Nat)
  /-- A writer changes the page without a log record. -/
  | writeUnlogged (n : NodeId N) (f : α → α)
  /-- `tryUnlockShared` or `tryUnlockExclusive`. -/
  | release (n : NodeId N) (x : Bool)
  /-- The releasing thread pushes the page to `dest_node_id`. -/
  | releasePush (n : NodeId N) (r : Release)
  /-- The releasing thread forgets `dest_node_id` and calls `UnlockShared` or `UnlockExclusive`. -/
  | releaseFinish (n : NodeId N) (r : Release)
  | pending (n : NodeId N) (p : PendingRequest N)
  /-- The rest of the Pending handler, up to `LRPAnyUnLock`. -/
  | pendingFinish (n : NodeId N) (h : PendingHandler N)
  /-- The directory serves `LRPAnyUnLock`. -/
  | dirUnlock (n : NodeId N) (u : UnlockCall)
  /-- `LRPAnyUnLock` returns. -/
  | unlockReturn (n : NodeId N) (u : UnlockCall)
  /-- A pushed page is put into the buffer. -/
  | pushArrive (n : NodeId N) (page : Page α)
  /-- `RemotePushPageSuccess`. -/
  | pushNotify (n : NodeId N)
  | lockSuccess (n : NodeId N) (g : LockSuccessRequest N)
  /-- `TryBeginEvict` succeeds. -/
  | beginEvict (n : NodeId N)
  /-- The victim's frame holds no page any more: `UnlockMtx` without having locked. -/
  | evictLost (n : NodeId N)
  /-- `getUnlockType`, and the LLSN of the page. -/
  | evictCheck (n : NodeId N)
  /-- The directory serves `BufferReleaseUnlock`. -/
  | dirEvict (n : NodeId N) (lsn : Nat)
  /-- Another page takes the frame. -/
  | evictReplace (n : NodeId N)
  /-- `UnlockAny` at the end of an eviction. -/
  | evictDone (n : NodeId N)
  | endEvict (n : NodeId N)

/-- Whether the action changes the page, logged or not. -/
def Action.changesPage : Action N α → Bool
  | .write .. | .writeUnlogged .. => true
  | _ => false

namespace State

/-! ## Fetching the page -/

/-- What a fetch does when its lock call has returned: it asks the directory, or it finds the page in
the buffer and returns. -/
def afterLock (s : State N α) (n : NodeId N) (x : Bool) (lk : LRLocalPageLock N)
    (lockRemote : Bool) : Outcome (State N α) := do
  let nd := s.nodes n
  if lockRemote then
    return s.setNode n { nd with
      lk := lk, fetches := ⟨x, .asking⟩ :: nd.fetches, received := 0 }
  else
    cassert (nd.buffer.isSome = true)
    return s.setNode n { nd with
      lk := lk
      readers := if x then nd.readers else nd.readers + 1
      writers := if x then nd.writers + 1 else nd.writers }

/-- `rpc_lazy_fetch_s_page` or `rpc_lazy_fetch_x_page` up to the question whether the directory has to
be asked. -/
def lock (s : State N α) (n : NodeId N) (x : Bool) : Outcome (State N α) := do
  let (lk, lockRemote) ← if x then (s.nodes n).lk.lockExclusive else (s.nodes n).lk.lockShared
  s.afterLock n x lk lockRemote

/-- The stage after an answer of the directory. -/
def stageAfter : LockReply N → FetchStage N
  | .pushFrom m => .notifying m
  | .localCopy => .pushing []
  | reply => .answered reply

/-- `LRPSLock` or `LRPXLock`. -/
def dirLock (s : State N α) (n : NodeId N) (f : Fetch N) : Outcome (State N α) := do
  let nd := s.nodes n
  await (f ∈ nd.fetches ∧ f.stage = .asking)
  let (d, msgs, reply) ← if f.x then s.dir.lrpxLock n else s.dir.lrpsLock n
  return s.afterDir d msgs n (nd.setStage f (stageAfter reply))

/-- The handler of `NotifyPushPage` waits until the page is in its buffer and pushes it; the lock
call of node `n` then ends. -/
def notifyPush (s : State N α) (n : NodeId N) (f : Fetch N) : Outcome (State N α) := do
  await (f ∈ (s.nodes n).fetches)
  match f.stage with
  | .notifying m =>
    await ((s.nodes m).buffer.isSome = true)
    let s ← s.push m n
    let s := s.setNode n ((s.nodes n).setStage f (.answered (.pushFrom m)))
    return { s with dir := s.dir.notifyPushPageDone }
  | _ => blocked

/-- `rpc_fetch_page_from_storage_with_lsn` and `put_page_into_buffer`. -/
def readStorage (s : State N α) (n : NodeId N) (f : Fetch N) (k : Nat) : Outcome (State N α) := do
  let nd := s.nodes n
  await (f ∈ nd.fetches)
  match f.stage with
  | .answered (.storageFetch lsn) =>
    let page := replay s.base (s.log.take k)
    await (k ≤ s.log.length ∧ lsn ≤ page.llsn)
    cassert (nd.buffer.isSome = false)
    return s.setNode n { nd.setStage f (.pushing []) with buffer := some page }
  | _ => blocked

/-- `TryGetPushData`: the page was pushed. -/
def gotPush (s : State N α) (n : NodeId N) (f : Fetch N) : Outcome (State N α) := do
  let nd := s.nodes n
  await (f ∈ nd.fetches)
  match f.stage with
  | .answered (.pushFrom _) =>
    let lk ← nd.lk.tryGetPushData
    return s.setNode n { nd.setStage f (.pushing []) with lk := lk }
  | _ => blocked

/-- `TryRemoteLockSuccess`: the lock was granted. -/
def gotLock (s : State N α) (n : NodeId N) (f : Fetch N) : Outcome (State N α) := do
  let nd := s.nodes n
  await (f ∈ nd.fetches ∧ f.stage = .answered .waitLockRelease)
  let lk ← nd.lk.tryRemoteLockSuccess
  return s.setNode n { nd.setStage f .granted with lk := lk }

/-- The fetching thread takes the list of nodes to push the page to; an exclusive fetch has none. -/
def takePushList (s : State N α) (n : NodeId N) (f : Fetch N) : Outcome (State N α) := do
  let nd := s.nodes n
  await (f ∈ nd.fetches ∧ f.stage = .granted)
  let (lk, pushList) ← nd.lk.getPushList
  cassert (f.x = true → pushList = [])
  return s.setNode n { nd.setStage f (.pushing pushList) with lk := lk }

/-- The fetching thread pushes the page to the last node of its list. -/
def pushNext (s : State N α) (n : NodeId N) (f : Fetch N) : Outcome (State N α) := do
  await (f ∈ (s.nodes n).fetches)
  match f.stage with
  | .pushing pushList =>
    match pushList.getLast? with
    | some dest =>
      let s ← s.push n dest
      return s.setNode n ((s.nodes n).setStage f (.pushing pushList.dropLast))
    | none => blocked
  | _ => blocked

/-- `LockRemoteOK`: the fetch returns. -/
def fetchDone (s : State N α) (n : NodeId N) (f : Fetch N) : Outcome (State N α) := do
  let nd := s.nodes n
  await (f ∈ nd.fetches ∧ f.stage = .pushing [])
  cassert (nd.buffer.isSome = true)
  let lk ← nd.lk.lockRemoteOK
  return s.setNode n { nd with
    lk := lk
    fetches := nd.fetches.erase f
    readers := if f.x then nd.readers else nd.readers + 1
    writers := if f.x then nd.writers + 1 else nd.writers }

/-! ## Writing -/

/-- A logged change: `AddUpdateLog` and its siblings raise the LLSN of the page. -/
def write (s : State N α) (n : NodeId N) (f : α → α) (llsn : Nat) : Outcome (State N α) := do
  let nd := s.nodes n
  await (0 < nd.writers)
  match nd.buffer with
  | none => abort
  | some page =>
    await (page.llsn < llsn)
    let page := { llsn := llsn, data := f page.data }
    return { s.setNode n { nd with buffer := some page } with
      log := s.log ++ [(llsn, f)], cur := page }

/-- A write that leaves no log record. -/
def writeUnlogged (s : State N α) (n : NodeId N) (f : α → α) : Outcome (State N α) := do
  let nd := s.nodes n
  await (0 < nd.writers)
  match nd.buffer with
  | none => abort
  | some page =>
    let page := { page with data := f page.data }
    return { s.setNode n { nd with buffer := some page } with cur := page }

/-! ## Releasing the page -/

/-- The start of `rpc_lazy_release_s_page` or `rpc_lazy_release_x_page`. -/
def release (s : State N α) (n : NodeId N) (x : Bool) : Outcome (State N α) := do
  let nd := s.nodes n
  await (if x then 0 < nd.writers else 0 < nd.readers)
  let (lk, unlockRemote) ← if x then nd.lk.tryUnlockExclusive else nd.lk.tryUnlockShared
  return s.setNode n { nd with
    lk := lk
    readers := if x then nd.readers else nd.readers - 1
    writers := if x then nd.writers - 1 else nd.writers
    releases := ⟨x, unlockRemote, none⟩ :: nd.releases }

/-- The push of a release. A reader always pushes when there is somebody to push to, a writer only
when it gives the page back. -/
def releasePush (s : State N α) (n : NodeId N) (r : Release) : Outcome (State N α) := do
  let dest := (s.nodes n).lk.destNodeId
  await (r ∈ (s.nodes n).releases ∧ r.pushed = none)
  if r.x = true ∧ r.unlockRemote = 0 then
    cassert (dest = none)
    let nd := s.nodes n
    return s.setNode n { nd with
      releases := { r with pushed := some false } :: nd.releases.erase r }
  else
    let s ← s.pushTo n dest
    let nd := s.nodes n
    return s.setNode n { nd with
      releases := { r with pushed := some dest.isSome } :: nd.releases.erase r }

/-- The end of a release that keeps the page, or its call of `LRPAnyUnLock`. -/
def releaseFinish (s : State N α) (n : NodeId N) (r : Release) : Outcome (State N α) := do
  let nd := s.nodes n
  await (r ∈ nd.releases)
  match r.pushed with
  | none => blocked
  | some pushed =>
    let lk := if pushed then { nd.lk with destNodeId := none } else nd.lk
    let lk := if r.x then lk.unlockExclusive else lk.unlockShared
    if r.unlockRemote = 0 then
      return s.setNode n { nd with lk := lk.unlockMtx, releases := nd.releases.erase r }
    else
      return s.setNode n { nd with
        lk := lk
        releases := nd.releases.erase r
        unlocks := ⟨true, false⟩ :: nd.unlocks }

/-- The Pending handler up to the end of `LRLocalPageLock::Pending`. -/
def pending (s : State N α) (n : NodeId N) (p : PendingRequest N) : Outcome (State N α) := do
  let nd := s.nodes n
  await (p ∈ nd.pendings)
  cassert (p.dest ≠ some n)
  let (lk, unlockRemote) ← nd.lk.pending p.xpending
  cassert (lk.destNodeId = none)
  return s.setNode n { nd with
    lk := lk
    pendings := nd.pendings.erase p
    handlers := ⟨unlockRemote, p.dest⟩ :: nd.handlers }

/-- The rest of the Pending handler. If the page is given up it is pushed and leaves the buffer before
the directory is called; otherwise the push is left to the release. -/
def pendingFinish (s : State N α) (n : NodeId N) (h : PendingHandler N) : Outcome (State N α) := do
  await (h ∈ (s.nodes n).handlers)
  if 0 < h.unlockRemote then
    let s ← s.pushTo n h.dest
    let nd := s.nodes n
    cassert (nd.buffer.isSome = true)
    return s.setNode n { nd with
      buffer := none
      handlers := nd.handlers.erase h
      unlocks := ⟨false, false⟩ :: nd.unlocks }
  else
    let nd := s.nodes n
    let lk := if h.dest.isSome then { nd.lk with destNodeId := h.dest } else nd.lk
    return s.setNode n { nd with lk := lk.unlockMtx, handlers := nd.handlers.erase h }

/-- `LRPAnyUnLock`. -/
def dirUnlock (s : State N α) (n : NodeId N) (u : UnlockCall) : Outcome (State N α) := do
  let nd := s.nodes n
  await (u ∈ nd.unlocks ∧ u.served = false)
  let (d, msgs) ← s.dir.lrpAnyUnLock n
  return s.afterDir d msgs n { nd with unlocks := { u with served := true } :: nd.unlocks.erase u }

/-- The caller of `LRPAnyUnLock` goes on: a release drops the page from the buffer only now. -/
def unlockReturn (s : State N α) (n : NodeId N) (u : UnlockCall) : Outcome (State N α) := do
  let nd := s.nodes n
  await (u ∈ nd.unlocks ∧ u.served = true)
  cassert (u.fromRelease = true → nd.buffer.isSome = true)
  return s.setNode n { nd with
    lk := nd.lk.unlockMtx
    buffer := if u.fromRelease then none else nd.buffer
    unlocks := nd.unlocks.erase u }

/-! ## Pushed pages and grants -/

/-- `PushPage` puts the page into the buffer. -/
def pushArrive [DecidableEq α] (s : State N α) (n : NodeId N) (page : Page α) :
    Outcome (State N α) := do
  let nd := s.nodes n
  await (page ∈ nd.pushes)
  cassert (nd.buffer.isSome = false)
  return s.setNode n { nd with
    buffer := some page
    pushes := nd.pushes.erase page
    arrived := nd.arrived + 1
    received := nd.received + 1 }

/-- `PushPage` tells the fetch that waits. -/
def pushNotify (s : State N α) (n : NodeId N) : Outcome (State N α) := do
  let nd := s.nodes n
  await (0 < nd.arrived)
  let lk ← nd.lk.remotePushPageSuccess
  return s.setNode n { nd with lk := lk, arrived := nd.arrived - 1 }

/-- `LockSuccess` arrives. -/
def lockSuccess (s : State N α) (n : NodeId N) (g : LockSuccessRequest N) :
    Outcome (State N α) := do
  let nd := s.nodes n
  await (g ∈ nd.grants)
  let lk ← nd.lk.remoteNotifyLockSuccess g.xlock g.isNewest
  cassert (n ∉ g.destNodeIds)
  let lk := g.destNodeIds.foldl (fun lk m => lk.addToPushListNoBlock m) lk
  return s.setNode n { nd with lk := lk.unlockMtx, grants := nd.grants.erase g }

/-! ## Evicting the page -/

/-- An eviction moves on. -/
def setEvict (s : State N α) (n : NodeId N) (lk : LRLocalPageLock N) (e e' : Evict) : State N α :=
  let nd := s.nodes n
  s.setNode n { nd with lk := lk, evicts := e' :: nd.evicts.erase e }

/-- `replace_page` chooses the page as victim. -/
def beginEvict (s : State N α) (n : NodeId N) : Outcome (State N α) := do
  let nd := s.nodes n
  let (lk, ok) ← nd.lk.tryBeginEvict
  await (ok = true)
  return s.setNode n { nd with lk := lk, evicts := .chosen :: nd.evicts }

/-- The second read of the frame finds no page: a Pending handler has released it in between. The
eviction unlocks a mutex that it does not hold. -/
def evictLost (s : State N α) (n : NodeId N) : Outcome (State N α) := do
  let nd := s.nodes n
  await (.chosen ∈ nd.evicts ∧ nd.buffer.isSome = false)
  return s.setEvict n { nd.lk with mutex := nd.lk.mutex.strayUnlock } .chosen .ending

/-- The eviction looks up the mode of the page and, if the node has it, its LLSN. -/
def evictCheck (s : State N α) (n : NodeId N) : Outcome (State N α) := do
  let nd := s.nodes n
  await (.chosen ∈ nd.evicts)
  let (lk, unlockRemote) ← nd.lk.getUnlockType
  if unlockRemote = 0 then
    return s.setEvict n lk.unlockMtx .chosen .ending
  else match nd.buffer with
    | none => abort
    | some page => return s.setEvict n lk.unlockMtx .chosen (.asking page.llsn)

/-- `BufferReleaseUnlock`: may the page go? -/
def dirEvict (s : State N α) (n : NodeId N) (lsn : Nat) : Outcome (State N α) := do
  let nd := s.nodes n
  await (.asking lsn ∈ nd.evicts)
  let (d, agree) ← s.dir.bufferReleaseUnlock n lsn
  return { s.setEvict n nd.lk (.asking lsn) (if agree then .agreed else .ending) with dir := d }

/-- `insert_or_replace`: another page takes the frame. -/
def evictReplace (s : State N α) (n : NodeId N) : Outcome (State N α) := do
  let nd := s.nodes n
  await (.agreed ∈ nd.evicts)
  cassert (nd.buffer.isSome = true)
  return s.setNode n { nd with buffer := none, evicts := .replaced :: nd.evicts.erase .agreed }

/-- The page is gone and the lock is given back. -/
def evictDone (s : State N α) (n : NodeId N) : Outcome (State N α) := do
  let nd := s.nodes n
  await (.replaced ∈ nd.evicts)
  let lk ← nd.lk.unlockAny
  return s.setEvict n lk .replaced .ending

/-- `EndEvict`. -/
def endEvict (s : State N α) (n : NodeId N) : Outcome (State N α) := do
  let nd := s.nodes n
  await (.ending ∈ nd.evicts)
  let lk ← nd.lk.endEvict
  return s.setNode n { nd with lk := lk, evicts := nd.evicts.erase .ending }

/-- One step. -/
def step [DecidableEq α] (s : State N α) : Action N α → Outcome (State N α)
  | .lock n x => s.lock n x
  | .dirLock n f => s.dirLock n f
  | .notifyPush n f => s.notifyPush n f
  | .readStorage n f k => s.readStorage n f k
  | .gotPush n f => s.gotPush n f
  | .gotLock n f => s.gotLock n f
  | .takePushList n f => s.takePushList n f
  | .pushNext n f => s.pushNext n f
  | .fetchDone n f => s.fetchDone n f
  | .write n f llsn => s.write n f llsn
  | .writeUnlogged n f => s.writeUnlogged n f
  | .release n x => s.release n x
  | .releasePush n r => s.releasePush n r
  | .releaseFinish n r => s.releaseFinish n r
  | .pending n p => s.pending n p
  | .pendingFinish n h => s.pendingFinish n h
  | .dirUnlock n u => s.dirUnlock n u
  | .unlockReturn n u => s.unlockReturn n u
  | .pushArrive n page => s.pushArrive n page
  | .pushNotify n => s.pushNotify n
  | .lockSuccess n g => s.lockSuccess n g
  | .beginEvict n => s.beginEvict n
  | .evictLost n => s.evictLost n
  | .evictCheck n => s.evictCheck n
  | .dirEvict n lsn => s.dirEvict n lsn
  | .evictReplace n => s.evictReplace n
  | .evictDone n => s.evictDone n
  | .endEvict n => s.endEvict n

end State

end LazyRelease
