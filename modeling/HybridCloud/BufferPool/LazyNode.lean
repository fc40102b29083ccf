import HybridCloud.BufferPool.Pool
import HybridCloud.LazyRelease.Protocol

/-!
# The buffer pool under the lazy-release protocol

The buffer pool that node `me` keeps for one heap table, together with the lazy-release protocol of
every page of the table. A step of a page's protocol that calls the pool makes that call, and a page
is put into the pool by a thread of its own (`Put`), which runs `put_page_into_buffe_lazy`
(src/compute_server/server.h) for the fetch that reads storage or for the handler of PushPage. If it
finds no free frame it evicts another page, and takes part in that page's protocol.

`fetch_page` is taken together with the local lock before it, and `unpin_page` with the release that
calls it. `assert`s of the pool abort; a step that fails an assertion of a local lock or of the
directory is not taken. The contents of the pages are left out.
-/

namespace BufferPool

open Outcome LazyRelease

variable {N : Nat}

/-- Whose page is put into the pool. -/
inductive PutSource (N : Nat) where
  /-- The fetch's; it has read storage after the first `k` log records. -/
  | storage (f : Fetch N) (k : Nat)
  | push (image : LazyRelease.Page Unit)
  deriving DecidableEq

/-- Where a thread is in `put_page_into_buffe_lazy`. -/
inductive PutStage where
  /-- Before `checkIfDirectlyPutInBuffer`. -/
  | checking
  /-- It has taken a free frame. -/
  | reserved (f : FrameId)
  /-- Before `tryVictim`. -/
  | choosing
  /-- In `tryVictim`, before the `i`th partition. -/
  | probing (start i : Nat)
  /-- `tryVictim` has chosen a frame. -/
  | picked (f : FrameId)
  /-- `victim_page_id` has been read. -/
  | read (f : FrameId) (victim : PageId)
  /-- The frame holds no page, or `TryBeginEvict` has failed. -/
  | giveUp (f : FrameId)
  /-- `TryBeginEvict` has succeeded. -/
  | won (f : FrameId) (victim : PageId)
  /-- After `endVictim`. -/
  | begun (f : FrameId) (victim : PageId)
  /-- The frame still holds a page. -/
  | chosen (f : FrameId) (victim : PageId)
  /-- `BufferReleaseUnlock` is on its way. -/
  | asking (f : FrameId) (victim : PageId) (lsn : Nat)
  /-- The directory has agreed. -/
  | agreed (f : FrameId) (victim : PageId)
  /-- After `insert_or_replace`. -/
  | replaced (victim : PageId)
  /-- Only `EndEvict` is left, and the next round unless the page is in the pool (`done`). -/
  | ending (victim : PageId) (done : Bool)
  deriving DecidableEq

/-- A call of `put_page_into_buffe_lazy` and how far it is. -/
structure Put (N : Nat) where
  page : PageId
  src : PutSource N
  stage : PutStage
  deriving DecidableEq

/-- The node's pool and the protocols of the pages. -/
structure LazyNode (N : Nat) where
  protocol : PageId → LazyRelease.State N Unit
  pool : Pool
  puts : List (Put N)
  /-- The fetch that asked the directory has got its `Page *`. -/
  ready : PageId → Bool

/-- The steps: those of the protocol of a page, and those of a put. -/
inductive Action (N : Nat) where
  | protocol (p : PageId) (a : LazyRelease.Action N Unit)
  /-- `fetch_page` of a fetch that did not read storage. -/
  | fetchPage (p : PageId) (f : Fetch N)
  | beginPut (p : PageId) (src : PutSource N)
  | checkFree (q : Put N)
  /-- `insert_or_replace` into a free frame. -/
  | insertFree (q : Put N)
  /-- `tryVictim` begins with partition `start`. -/
  | startProbe (q : Put N) (start : Nat)
  /-- `tryVictim` looks into the next partition. -/
  | probe (q : Put N)
  /-- The first read of `pages[frame]->page_id_`. -/
  | readVictim (q : Put N)
  | tryBeginEvict (q : Put N)
  | endVictim (q : Put N)
  /-- The second read of `pages[frame]->page_id_`. -/
  | readAgain (q : Put N)
  /-- `getUnlockType`, and `fetch_page` of the victim. -/
  | checkEvict (q : Put N)
  | askEvict (q : Put N)
  /-- `insert_or_replace` into the victim's frame. -/
  | replace (q : Put N)
  | finishEvict (q : Put N)
  | endEvict (q : Put N)

/-- An assertion that is not the pool's. -/
def attempt {σ : Type} : Outcome σ → Outcome σ
  | .next s => .next s
  | .blocked | .abort => .blocked

/-- The new page is in its frame. -/
def PutStage.inserted : PutStage → Bool
  | .replaced _ | .ending _ true => true
  | _ => false

/-- The page was pushed by another node. -/
def PutSource.isPush : PutSource N → Bool
  | .push _ => true
  | .storage _ _ => false

/-- The step of the page's protocol in which the page gets into the pool. -/
def PutSource.action (me : GPLM.NodeId N) : PutSource N → LazyRelease.Action N Unit
  | .storage f k => .readStorage me f k
  | .push image => .pushArrive me image

namespace LazyNode

/-- An empty pool; every page is in storage only. -/
def init (poolSize : Nat) : LazyNode N where
  protocol _ := .init { llsn := 0, data := () }
  pool := .init poolSize
  puts := []
  ready _ := false

variable (me : GPLM.NodeId N)

/-- This node in the protocol of page `p`. -/
def node (s : LazyNode N) (p : PageId) : LazyRelease.Node N Unit := (s.protocol p).nodes me

/-- The protocol of a page moves on. -/
def setProtocol (s : LazyNode N) (p : PageId) (st : LazyRelease.State N Unit) : LazyNode N :=
  { s with protocol := Function.update s.protocol p st }

/-- A put moves on to `stage`. -/
def setPut (s : LazyNode N) (q : Put N) (stage : PutStage) : LazyNode N :=
  { s with puts := { q with stage := stage } :: s.puts.erase q }

/-- `put_page_into_buffe_lazy` returns; a fetch has its page then. -/
def endPut (s : LazyNode N) (q : Put N) : LazyNode N :=
  { s with
    puts := s.puts.erase q
    ready := if q.src.isPush then s.ready else Function.update s.ready q.page true }

/-! ## The calls of the protocol -/

/-- The call of the pool that goes with a step of the protocol of page `p`. -/
def poolCall (s : LazyNode N) (p : PageId) : LazyRelease.Action N Unit → Outcome Pool
  | .lock n x =>
    let lk := ((s.protocol p).nodes n).lk
    match if x then lk.lockExclusive else lk.lockShared with
    | .next (_, false) => if n = me then s.pool.fetchPage p else return s.pool
    | _ => return s.pool
  | .notifyPush _ f =>
    -- `PushPageToOther`, after `wait_in_bufferPool`
    match f.stage with
    | .notifying m => if m = me then s.pool.fetchPage p else return s.pool
    | _ => return s.pool
  | .pushNext n _ => if n = me then s.pool.fetchPage p else return s.pool
  | .releasePush n r =>
    if n = me ∧ ¬ (r.x = true ∧ r.unlockRemote = 0) ∧ (s.node me p).lk.destNodeId ≠ none then
      s.pool.fetchPage p
    else return s.pool
  | .releaseFinish n r =>
    -- the last reader and every writer unpin the page if it stays
    if n = me ∧ r.unlockRemote = 0 ∧ (r.x = true ∨ (s.node me p).lk.lock - 1 = 0) then
      s.pool.unpinPage p
    else return s.pool
  | .pendingFinish n h =>
    if n = me ∧ 0 < h.unlockRemote then do
      let pool ← if h.dest = none then .next s.pool else s.pool.fetchPage p
      pool.releasePage p
    else return s.pool
  | .unlockReturn n u =>
    if n = me ∧ u.fromRelease = true then s.pool.releasePage p else return s.pool
  | _ => return s.pool

/-- Is this a step of the protocol that the threads of the pool do not take, and which they need not
finish before? -/
def leftToProtocol (s : LazyNode N) (p : PageId) : LazyRelease.Action N Unit → Bool
  | .readStorage n _ _ | .pushArrive n _ | .beginEvict n | .evictLost n | .evictCheck n
  | .dirEvict n _ | .evictReplace n | .evictDone n | .endEvict n => n ≠ me
  | .writeUnlogged _ _ => false
  | .pushNotify n =>
    n ≠ me ∨ s.puts.countP (fun q => q.page = p ∧ q.src.isPush ∧ q.stage.inserted) <
      (s.node me p).arrived
  | .fetchDone n _ => n ≠ me ∨ s.ready p = true
  | _ => true

/-- `LockRemoteOK` ends the fetch. -/
def readyAfter (s : LazyNode N) (p : PageId) : LazyRelease.Action N Unit → PageId → Bool
  | .fetchDone n _ => if n = me then Function.update s.ready p false else s.ready
  | _ => s.ready

/-- A step of the protocol that does not belong to a put, with what it calls of the pool. -/
def protocolStep (s : LazyNode N) (p : PageId) (a : LazyRelease.Action N Unit) :
    Outcome (LazyNode N) := do
  await (s.leftToProtocol me p a = true)
  match (s.protocol p).step a with
  | .blocked => .blocked
  | .abort => do
    let _ ← s.poolCall me p a
    .blocked
  | .next st => do
    let pool ← s.poolCall me p a
    return { s.setProtocol p st with pool := pool, ready := s.readyAfter me p a }

/-- `fetch_page` of a fetch that the directory has answered. -/
def fetchPage (s : LazyNode N) (p : PageId) (f : Fetch N) : Outcome (LazyNode N) := do
  await (f ∈ (s.node me p).fetches ∧ f.stage = .pushing [] ∧ s.ready p = false ∧
    ∀ q ∈ s.puts, q.page = p → q.src.isPush = true)
  let pool ← s.pool.fetchPage p
  return { s with pool := pool, ready := Function.update s.ready p true }

/-! ## Putting a page into the pool -/

/-- The page to put into the pool is there. -/
def atHand (s : LazyNode N) (p : PageId) : PutSource N → Bool
  | .storage f k =>
    decide (f ∈ (s.node me p).fetches ∧ ∀ q ∈ s.puts, q.page = p → q.src.isPush = true) &&
      match f.stage with
      | .answered (.storageFetch lsn) =>
        decide (k ≤ (s.protocol p).log.length ∧
          lsn ≤ (replay (s.protocol p).base ((s.protocol p).log.take k)).llsn)
      | _ => false
  | .push image =>
    s.puts.countP (fun q => q.page = p ∧ q.src = .push image ∧ q.stage.inserted = false) <
      (s.node me p).pushes.count image

/-- A page that is at hand is to be put into the pool. -/
def beginPut (s : LazyNode N) (p : PageId) (src : PutSource N) : Outcome (LazyNode N) := do
  await (s.atHand me p src = true)
  return { s with puts := { page := p, src := src, stage := .checking } :: s.puts }

/-- `checkIfDirectlyPutInBuffer`: is there a free frame? -/
def checkFree (s : LazyNode N) (q : Put N) : Outcome (LazyNode N) := do
  await (q ∈ s.puts ∧ q.stage = .checking)
  let (pool, frame) ← s.pool.checkIfDirectlyPutInBuffer q.page
  match frame with
  | some f => return { s with pool := pool }.setPut q (.reserved f)
  | none => return { s with pool := pool }.setPut q .choosing

/-- What it means for the protocol of the victim that its frame is taken. -/
def dropVictim (s : LazyNode N) : Option PageId → Outcome (LazyNode N)
  | none => return s
  | some victim => do
    let st ← attempt ((s.protocol victim).evictReplace me)
    return s.setProtocol victim st

/-- `insert_or_replace`, with what it means for the protocols of the victim and of the page. -/
def insert (s : LazyNode N) (q : Put N) (f : FrameId) (victim : Option PageId) :
    Outcome (LazyNode N) := do
  let pool ← s.pool.insertOrReplace q.page f victim
  let s ← s.dropVictim me victim
  let st ← attempt ((s.protocol q.page).step (q.src.action me))
  return { s.setProtocol q.page st with pool := pool }

/-- The page goes into the free frame that was reserved for it. -/
def insertFree (s : LazyNode N) (q : Put N) : Outcome (LazyNode N) := do
  await (q ∈ s.puts)
  match q.stage with
  | .reserved f => do
    let s ← s.insert me q f none
    return s.endPut q
  | _ => .blocked

/-- `tryVictim` begins with partition `start`. -/
def startProbe (s : LazyNode N) (q : Put N) (start : Nat) : Outcome (LazyNode N) := do
  await (q ∈ s.puts ∧ q.stage = .choosing)
  return s.setPut q (.probing start 0)

/-- `tryVictim` looks into one partition. -/
def probe (s : LazyNode N) (q : Put N) : Outcome (LazyNode N) := do
  await (q ∈ s.puts)
  match q.stage with
  | .probing start i =>
    match s.pool.replacer.probe ((start + i) % NUM_BUFFER_PARTITION) with
    | some f =>
      return { s with
        pool := { s.pool with replacer := s.pool.replacer.choose f } }.setPut q (.picked f)
    | none => do
      -- `assert(res)` after the last partition
      cassert (i + 1 < NUM_BUFFER_PARTITION)
      return s.setPut q (.probing start (i + 1))
  | _ => .blocked

/-- The page of the frame that was chosen is read, without a lock. -/
def readVictim (s : LazyNode N) (q : Put N) : Outcome (LazyNode N) := do
  await (q ∈ s.puts)
  match q.stage with
  | .picked f =>
    match (s.pool.pages f).pageId with
    | none => return s.setPut q (.giveUp f)
    | some victim => return s.setPut q (.read f victim)
  | _ => .blocked

/-- `tryBeginEvict` on the lock of the victim. -/
def tryBeginEvict (s : LazyNode N) (q : Put N) : Outcome (LazyNode N) := do
  await (q ∈ s.puts)
  match q.stage with
  | .read f victim => do
    let (_, ok) ← (s.node me victim).lk.tryBeginEvict
    if ok then do
      let st ← attempt ((s.protocol victim).beginEvict me)
      return (s.setProtocol victim st).setPut q (.won f victim)
    else return s.setPut q (.giveUp f)
  | _ => .blocked

/-- `endVictim`: the frame is let go, or taken out of its list. -/
def endVictim (s : LazyNode N) (q : Put N) : Outcome (LazyNode N) := do
  await (q ∈ s.puts)
  match q.stage with
  | .giveUp f =>
    return { s with
      pool := { s.pool with replacer := s.pool.replacer.endVictim false f } }.setPut q .choosing
  | .won f victim =>
    return { s with
      pool := { s.pool with replacer := s.pool.replacer.endVictim true f } }.setPut q
        (.begun f victim)
  | _ => .blocked

/-- The page of the frame is read again; if there is none any more, the mutex is unlocked all the
same. -/
def readAgain (s : LazyNode N) (q : Put N) : Outcome (LazyNode N) := do
  await (q ∈ s.puts)
  match q.stage with
  | .begun f victim =>
    match (s.pool.pages f).pageId with
    | none =>
      -- `UnlockMtx` of a mutex that the thread does not hold
      let lk := (s.node me victim).lk
      let st := (s.protocol victim).setEvict me { lk with mutex := lk.mutex.strayUnlock }
        .chosen .ending
      return (s.setProtocol victim st).setPut q (.ending victim false)
    | some _ => return s.setPut q (.chosen f victim)
  | _ => .blocked

/-- `getUnlockType` of the victim: whom does the eviction have to ask? -/
def checkEvict (s : LazyNode N) (q : Put N) : Outcome (LazyNode N) := do
  await (q ∈ s.puts)
  match q.stage with
  | .chosen f victim => do
    let (_, unlockRemote) ← (s.node me victim).lk.getUnlockType
    if unlockRemote = 0 then do
      let st ← attempt ((s.protocol victim).evictCheck me)
      return (s.setProtocol victim st).setPut q (.ending victim false)
    else do
      -- once for `wait_log_flush` and once for the LLSN
      let pool ← s.pool.fetchPage victim
      let pool ← pool.fetchPage victim
      let st ← attempt ((s.protocol victim).evictCheck me)
      match (s.node me victim).buffer with
      | none => .blocked
      | some page =>
        return { s.setProtocol victim st with pool := pool }.setPut q (.asking f victim page.llsn)
  | _ => .blocked

/-- The directory is asked whether the victim may go. -/
def askEvict (s : LazyNode N) (q : Put N) : Outcome (LazyNode N) := do
  await (q ∈ s.puts)
  match q.stage with
  | .asking f victim lsn => do
    let st ← attempt ((s.protocol victim).dirEvict me lsn)
    if .agreed ∈ (st.nodes me).evicts then
      return (s.setProtocol victim st).setPut q (.agreed f victim)
    else return (s.setProtocol victim st).setPut q (.ending victim false)
  | _ => .blocked

/-- The page replaces the victim in its frame. -/
def replace (s : LazyNode N) (q : Put N) : Outcome (LazyNode N) := do
  await (q ∈ s.puts)
  match q.stage with
  | .agreed f victim => do
    let s ← s.insert me q f (some victim)
    return s.setPut q (.replaced victim)
  | _ => .blocked

/-- The lock of the victim is given back. -/
def finishEvict (s : LazyNode N) (q : Put N) : Outcome (LazyNode N) := do
  await (q ∈ s.puts)
  match q.stage with
  | .replaced victim => do
    let st ← attempt ((s.protocol victim).evictDone me)
    return (s.setProtocol victim st).setPut q (.ending victim true)
  | _ => .blocked

/-- `EndEvict` of the victim; an eviction that failed chooses again. -/
def endEvict (s : LazyNode N) (q : Put N) : Outcome (LazyNode N) := do
  await (q ∈ s.puts)
  match q.stage with
  | .ending victim done => do
    let st ← attempt ((s.protocol victim).endEvict me)
    let s := s.setProtocol victim st
    return if done then s.endPut q else s.setPut q .choosing
  | _ => .blocked

/-- One step of one thread. -/
def step (s : LazyNode N) : Action N → Outcome (LazyNode N)
  | .protocol p a => s.protocolStep me p a
  | .fetchPage p f => s.fetchPage me p f
  | .beginPut p src => s.beginPut me p src
  | .checkFree q => s.checkFree q
  | .insertFree q => s.insertFree me q
  | .startProbe q start => s.startProbe q start
  | .probe q => s.probe q
  | .readVictim q => s.readVictim q
  | .tryBeginEvict q => s.tryBeginEvict me q
  | .endVictim q => s.endVictim q
  | .readAgain q => s.readAgain me q
  | .checkEvict q => s.checkEvict me q
  | .askEvict q => s.askEvict me q
  | .replace q => s.replace me q
  | .finishEvict q => s.finishEvict me q
  | .endEvict q => s.endEvict me q

end LazyNode

end BufferPool
