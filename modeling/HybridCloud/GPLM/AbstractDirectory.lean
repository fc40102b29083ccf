import HybridCloud.GPLM.RemotePageTable

/-!
# What a page directory is for

Seen from outside, the directory of a page is a fair readers-writer lock that also knows where the
newest image of the page is: a list of holders, whether they hold exclusively, a queue of requests,
the holder to copy the page from, and the LLSN to ask storage for. `AbsDirectory` is that view. Its
operations say in a few lines what the calls of the directory do.

`AbsDirectory.concrete` is the directory that represents an abstract one: all the redundant fields of
the C++ classes (the lock word, the two counters, `is_pending`, `src_node_id`, the status bits) are
computed from it.
-/

namespace GPLM

/-- What the directory knows about a page. -/
structure AbsDirectory (N : Nat) where
  /-- The nodes that hold the page, in the order in which they got it. -/
  holders : List (NodeId N)
  excl : Bool
  /-- The requests that wait, oldest first. -/
  queue : List (LRRequest N)
  /-- The holder that pushes the page to the next one who needs it. -/
  newest : Option (NodeId N)
  /-- The LLSN of the page when it was last evicted. -/
  lsn : Nat

namespace AbsDirectory

variable {N : Nat}

/-- Nobody has the page. -/
def init : AbsDirectory N := { holders := [], excl := false, queue := [], newest := none, lsn := 0 }

/-- The lock word of the directory lock. -/
def lockWord (a : AbsDirectory N) : Nat :=
  if a.excl then EXCLUSIVE_LOCKED else a.holders.length

/-- The nodes that have a request in the queue. -/
def queued (a : AbsDirectory N) : List (NodeId N) := a.queue.map (·.nodeId)

/-- The node the current round works for: the one whose request is the oldest. -/
def front (a : AbsDirectory N) : Option (NodeId N) := a.queue.head?.map (·.nodeId)

/-- The directory that represents `a`, with its two mutexes. -/
def concrete (a : AbsDirectory N) (glMutex validMutex : Mutex) : Directory N where
  gl :=
    { lock := a.lockWord
      holdLockNodes := a.holders
      isPending := a.queue ≠ []
      srcNodeId := a.front
      lsnId := a.lsn
      requestQueue := a.queue
      sRequestNum := a.queue.countP fun r => !r.xlock
      xRequestNum := a.queue.countP fun r => r.xlock
      mutex := glMutex }
  valid :=
    { newestNode := a.newest
      nodeHasNewestPageStatus := fun n => n ∈ a.holders
      mutex := validMutex }

/-- The holder that is told to push the page to node `n`: an exclusive holder always is, otherwise
nobody if `n` has the page already. -/
def pusher (a : AbsDirectory N) (n : NodeId N) : Option (NodeId N) :=
  if a.excl then a.holders.head? else if n ∈ a.holders then none else a.newest

/-- The Pending messages that start the round of the oldest request. -/
def pendingMsgs (a : AbsDirectory N) : List (DirMsg N) :=
  match a.queue with
  | [] => []
  | r :: _ => (a.holders.filter fun h => h ≠ r.nodeId).map fun h =>
      .pending h a.excl (if some h = a.pusher r.nodeId then some r.nodeId else none)

/-- A request that cannot be granted at once waits; the first one starts a round. -/
def enqueue (a : AbsDirectory N) (r : LRRequest N) : AbsDirectory N × List (DirMsg N) :=
  let a' := { a with queue := a.queue ++ [r] }
  (a', if a.queue = [] then a'.pendingMsgs else [])

/-- `LRPSLock`: readers join other readers unless somebody waits. -/
def lockShared (a : AbsDirectory N) (n : NodeId N) :
    AbsDirectory N × List (DirMsg N) × LockReply N :=
  if a.excl = false ∧ a.queue = [] then
    ({ a with holders := a.holders ++ [n], newest := some (a.newest.getD n) }, [],
      match a.newest with
      | none => .storageFetch a.lsn
      | some m => .pushFrom m)
  else
    let (a', msgs) := a.enqueue ⟨n, false⟩
    (a', msgs, .waitLockRelease)

/-- `LRPXLock`: a free page is granted, the only reader upgrades, everybody else waits. -/
def lockExclusive (a : AbsDirectory N) (n : NodeId N) :
    AbsDirectory N × List (DirMsg N) × LockReply N :=
  if a.queue = [] ∧ a.holders = [] then
    ({ a with holders := [n], excl := true, newest := some n }, [], .storageFetch a.lsn)
  else if a.queue = [] ∧ a.excl = false ∧ a.holders = [n] then
    ({ a with excl := true }, [], .localCopy)
  else
    let (a', msgs) := a.enqueue ⟨n, true⟩
    (a', msgs, .waitLockRelease)

/-- The holders that are left when `n` gives the page up. -/
def rest (a : AbsDirectory N) (n : NodeId N) : List (NodeId N) := a.holders.filter fun m => m ≠ n

/-- The newest node after `n` has left. -/
def newestWithout (a : AbsDirectory N) (n : NodeId N) : Option (NodeId N) :=
  if a.newest = some n then (List.finRange N).find? (fun i => i ∈ a.rest n) else a.newest

/-- A holder has left and nobody gets the page. -/
def leave (a : AbsDirectory N) (n : NodeId N) : AbsDirectory N :=
  { a with holders := a.rest n, excl := false, newest := a.newestWithout n }

/-- `BufferReleaseUnlock`: a holder may drop its copy unless a round is on. -/
def evict (a : AbsDirectory N) (n : NodeId N) (lsn : Nat) : AbsDirectory N × Bool :=
  if n ∈ a.holders ∧ a.queue = [] then
    ({ a.leave n with lsn := lsn }, true)
  else (a, false)

/-- The nodes that get a free page when `r` is the oldest request: `r`'s node, and with a shared
request every other shared one. -/
def granted (r : LRRequest N) (rs : List (LRRequest N)) : List (NodeId N) :=
  r.nodeId :: if r.xlock then [] else (rs.filter fun q => !q.xlock).map (·.nodeId)

/-- The requests that stay in the queue then. -/
def kept (r : LRRequest N) (rs : List (LRRequest N)) : List (LRRequest N) :=
  if r.xlock then rs else rs.filter fun q => q.xlock

/-- The LockSuccess messages to new holders: the first one is told to push the page to the others. -/
def successMsgs (xlock isNewest : Bool) (first : NodeId N) (others : List (NodeId N)) :
    List (DirMsg N) :=
  .lockSuccess first xlock isNewest others :: others.map fun m => .lockSuccess m xlock false []

/-- Hand the page to the nodes `first :: others` and start the next round if `queue` is not empty. -/
def grant (a : AbsDirectory N) (xlock : Bool) (first : NodeId N) (others : List (NodeId N))
    (queue : List (LRRequest N)) : AbsDirectory N × List (DirMsg N) :=
  let a' := { a with holders := first :: others, excl := xlock, queue := queue,
                     newest := some first }
  (a', successMsgs xlock (first ∈ a.holders) first others ++ a'.pendingMsgs)

/-- `LRPAnyUnLock`: a holder leaves. The page goes on when nobody is left, or when the only holder
left is the one that waits for an upgrade. -/
def release (a : AbsDirectory N) (n : NodeId N) : AbsDirectory N × List (DirMsg N) :=
  match a.queue with
  | [] => (a.leave n, [])
  | r :: rs =>
    if a.rest n = [] then a.grant r.xlock r.nodeId (granted r rs).tail (kept r rs)
    else if a.rest n = [r.nodeId] then a.grant true r.nodeId [] rs
    else (a.leave n, [])

/-- The states that the directory can be in. -/
structure WF (a : AbsDirectory N) : Prop where
  holders_nodup : a.holders.Nodup
  /-- An exclusive holder is alone. -/
  excl_single : a.excl = true → ∃ n, a.holders = [n]
  queue_nodup : a.queued.Nodup
  /-- Somebody else than the oldest waiting node holds the page while there is a queue. -/
  round : ∀ {r rs}, a.queue = r :: rs → ∃ h ∈ a.holders, h ≠ r.nodeId
  /-- A reader only starts a round against an exclusive holder. -/
  front_reader : ∀ {r rs}, a.queue = r :: rs → r.xlock = false → a.excl = true
  /-- The newest node holds the page. -/
  newest_mem : ∀ {n}, a.newest = some n → n ∈ a.holders
  /-- Only a page that nobody holds has to be read from storage. -/
  newest_none : a.newest = none → a.holders = []

end AbsDirectory

end GPLM
