import HybridCloud.BufferPool.Pool
import HybridCloud.Dtx.HeapPage
import HybridCloud.GPLM.GlobalPageLock

/-!
# The buffer pool of a page's owner in 2PC mode

In 2PC mode every page has one owner node, and only its threads touch the page: they serve the remote
calls of `TwoPCServiceImpl` (src/compute_server/twopc_server.cc) and the node's own transactions
(`Get_2pc_Local_page`, `Tx2PCCommitLocal`, `Tx2PCAbortLocal`). Each of these functions visits pages
one after the other. A visit takes the page's `LocalPageLock`, finds the page in the buffer pool or
reads it from storage and puts it there, works on it, and lets it go. An evicted page is dropped:
storage has what the log says, and `newest_lsn` tells which version has to be asked for.

A thread is a list of visits and the place where it is in the first of them. The mutex of the
`LocalPageLock` is held to the end of the fetch, so also while another page is evicted. Storage
answers `GetPageWithLsn` with any page that is not older than what is asked for and whose version is
one that this node has logged, or the one before that.
-/

namespace BufferPool

open Outcome Storage

/-! ## The local lock -/

/-- `LocalPageLock` (src/core/LPLM/local_page_lock.h). -/
structure LocalPageLock where
  /-- Number of readers, or `EXCLUSIVE_LOCKED`. -/
  lock : Nat
  isEvicting : Bool
  isReleased : Bool
  newestLsn : Nat
  mutex : Mutex
  deriving DecidableEq

namespace LocalPageLock

/-- Nobody has the page. -/
def init : LocalPageLock where
  lock := 0
  isEvicting := false
  isReleased := false
  newestLsn := 0
  mutex := .free

/-- `LockShared`; returns with the mutex taken. A node has fewer than `EXCLUSIVE_LOCKED` threads. -/
def lockShared (l : LocalPageLock) : Outcome LocalPageLock := do
  let m ← l.mutex.lock
  await (l.isEvicting = false ∧ l.lock ≠ GPLM.EXCLUSIVE_LOCKED)
  await (l.lock + 1 < GPLM.EXCLUSIVE_LOCKED)
  return { l with lock := l.lock + 1, mutex := m }

/-- `LockExclusive`; returns with the mutex taken. -/
def lockExclusive (l : LocalPageLock) : Outcome LocalPageLock := do
  let m ← l.mutex.lock
  await (¬ (l.lock ≠ 0 ∨ l.isEvicting = true))
  return { l with lock := GPLM.EXCLUSIVE_LOCKED, mutex := m }

/-- `UnlockMtx`. -/
def unlockMtx (l : LocalPageLock) : LocalPageLock := { l with mutex := l.mutex.unlock }

/-- `UnlockShared`; returns with the mutex taken. -/
def unlockShared (l : LocalPageLock) : Outcome LocalPageLock := do
  let m ← l.mutex.lock
  cassert (0 < l.lock)
  return { l with lock := l.lock - 1, mutex := m }

/-- `UnlockExclusive`; returns with the mutex taken. -/
def unlockExclusive (l : LocalPageLock) : Outcome LocalPageLock := do
  let m ← l.mutex.lock
  cassert (l.lock = GPLM.EXCLUSIVE_LOCKED)
  return { l with lock := 0, mutex := m }

/-- `TryBeginEvict`: nobody may use the page. -/
def tryBeginEvict (l : LocalPageLock) : Outcome (LocalPageLock × Bool) := do
  await (l.mutex.held = false)
  if l.isEvicting = true ∨ l.isReleased = true then return (l, false)
  else if l.lock = 0 then return ({ l with isEvicting := true }, true)
  else return (l, false)

/-- `EndEvict`. -/
def endEvict (l : LocalPageLock) : Outcome LocalPageLock := do
  await (l.mutex.held = false)
  cassert (l.isEvicting = true)
  return { l with isEvicting := false }

end LocalPageLock

/-! ## What is done with a page -/

/-- How a tuple is unlocked. -/
structure Unlock where
  /-- The new value and `commit_ts`; none of them when the transaction aborts. -/
  write : Option (List UInt8 × Nat)
  /-- The `start_ts` of the transaction, where the caller has it; otherwise it is read from the
  tuple. -/
  startTs : Option Nat
  /-- The key that the tuple must have. -/
  expectedKey : Option UInt64
  /-- The coordinator that the tuple must name as its holder's node. -/
  coordinator : Option Nat
  /-- The key to log, if it is not the tuple's. -/
  logKey : Option UInt64
  handoff : Option Dtx.Handoff

/-- What a call does with one page. -/
inductive Visit where
  /-- The page is read under the S lock. -/
  | read (p : PageId)
  /-- `GetDataItem` with `lock_data`. -/
  | lockRemote (p : PageId) (slotNo startTs requesterNode : Nat)
  /-- `Get_2pc_Local_page` with `lock`. -/
  | lockLocal (p : PageId) (slotNo : Nat) (key : UInt64) (startTs : Nat)
  /-- `Prepare` checks a write. -/
  | validate (p : PageId) (slotNo : Nat) (key : UInt64) (valueSize startTs coordinator : Nat)
  /-- `FetchXPageForUnlock` reads the tuple's owner, and there are waiters: the page is released and
  will be fetched again. -/
  | peek (p : PageId) (slotNo : Nat)
  /-- A tuple is unlocked. -/
  | unlock (p : PageId) (slotNo : Nat) (u : Unlock)

namespace Visit

/-- The page of a visit. -/
def page : Visit → PageId
  | .read p | .lockRemote p _ _ _ | .lockLocal p _ _ _ | .validate p _ _ _ _ _ | .peek p _
  | .unlock p _ _ => p

/-- The page is fetched by `local_fetch_x_page`. -/
def exclusive : Visit → Bool
  | .read _ => false
  | _ => true

end Visit

/-- A write that `Commit` or `Abort` ends. -/
structure UnlockItem where
  page : PageId
  slotNo : Nat
  key : UInt64
  value : List UInt8
  contested : Bool
  handoff : Option Dtx.Handoff

/-- A write that `Prepare` checks. -/
structure PreparedItem where
  page : PageId
  slotNo : Nat
  key : UInt64
  valueSize : Nat

/-- The functions that visit pages. -/
inductive Call where
  | getDataItem (p : PageId) (slotNo : Nat) (lock : Bool) (startTs requesterNode : Nat)
  | get2pcLocalPage (p : PageId) (slotNo : Nat) (lock : Bool) (key : UInt64) (startTs : Nat)
  | prepare (startTs coordinator : Nat) (writes : List PreparedItem)
  /-- `Commit` of kind LEGACY. -/
  | commit (commitTs : Nat) (items : List UnlockItem)
  /-- `Commit` of kind PREPARED. -/
  | commitPrepared (startTs coordinator commitTs : Nat) (items : List UnlockItem)
  | abort (items : List UnlockItem)
  | tx2PCCommitLocal (startTs commitTs : Nat) (items : List UnlockItem)
  | tx2PCAbortLocal (startTs : Nat) (items : List UnlockItem)

namespace Call

/-- The visits of `FetchXPageForUnlock` and of what follows it. -/
def forUnlock (item : UnlockItem) (u : Unlock) : List Visit :=
  (if item.contested then [.peek item.page item.slotNo] else []) ++
    [.unlock item.page item.slotNo u]

/-- The visits of a call, if none of them makes it return early. -/
def visits : Call → List Visit
  | .getDataItem p slotNo lock startTs requesterNode =>
    if lock then [.lockRemote p slotNo startTs requesterNode] else [.read p]
  | .get2pcLocalPage p slotNo lock key startTs =>
    if lock then [.lockLocal p slotNo key startTs] else [.read p]
  | .prepare startTs coordinator writes =>
    writes.map fun w => .validate w.page w.slotNo w.key w.valueSize startTs coordinator
  | .commit commitTs items =>
    items.flatMap fun item => forUnlock item
      { write := some (item.value, commitTs), startTs := none, expectedKey := none,
        coordinator := none, logKey := none, handoff := item.handoff }
  | .commitPrepared startTs coordinator commitTs items =>
    items.flatMap fun item => forUnlock item
      { write := some (item.value, commitTs), startTs := some startTs, expectedKey := some item.key,
        coordinator := some coordinator, logKey := none, handoff := item.handoff }
  | .abort items =>
    items.flatMap fun item => forUnlock item
      { write := none, startTs := none, expectedKey := none, coordinator := none, logKey := none,
        handoff := item.handoff }
  | .tx2PCCommitLocal startTs commitTs items =>
    items.map fun item => .unlock item.page item.slotNo
      { write := some (item.value, commitTs), startTs := some startTs, expectedKey := some item.key,
        coordinator := none, logKey := none, handoff := item.handoff }
  | .tx2PCAbortLocal startTs items =>
    items.map fun item => .unlock item.page item.slotNo
      { write := none, startTs := some startTs, expectedKey := none, coordinator := none,
        logKey := some item.key, handoff := item.handoff }

end Call

/-! ## Threads -/

/-- Where a thread is in its visit. -/
inductive Stage where
  /-- Before `LockShared` or `LockExclusive`. -/
  | idle
  /-- It has the lock and the mutex. -/
  | locked
  /-- `GetPageWithLsn` is on its way. -/
  | fetching (lsn : Nat)
  /-- Before `checkIfDirectlyPutInBuffer`. -/
  | checking (image : Page)
  /-- It has taken a free frame. -/
  | reserved (image : Page) (f : FrameId)
  /-- Before `tryVictim`. -/
  | choosing (image : Page)
  /-- In `tryVictim`, before the `i`th partition. -/
  | probing (image : Page) (start i : Nat)
  /-- `tryVictim` has chosen a frame. -/
  | picked (image : Page) (f : FrameId)
  /-- `victim_page_id` has been read. -/
  | read (image : Page) (f : FrameId) (victim : PageId)
  /-- The frame holds no page, or `TryBeginEvict` has failed. -/
  | giveUp (image : Page) (f : FrameId)
  /-- `TryBeginEvict` has succeeded. -/
  | won (image : Page) (f : FrameId) (victim : PageId)
  /-- After `endVictim`. -/
  | begun (image : Page) (f : FrameId) (victim : PageId)
  /-- The frame holds no page any more. -/
  | lost (image : Page) (victim : PageId)
  /-- The frame still holds a page. -/
  | chosen (image : Page) (f : FrameId) (victim : PageId)
  /-- After `fetch_page` of the victim. -/
  | pinned (image : Page) (f : FrameId) (victim : PageId)
  /-- After `insert_or_replace`. -/
  | replaced (f : FrameId) (victim : PageId)
  /-- It has its `Page *`, and the mutex. -/
  | found (f : FrameId)
  /-- `local_fetch_s_page` or `local_fetch_x_page` has returned the page in frame `f`. -/
  | holding (f : FrameId)
  /-- The page has been changed and the change logged; `set_newest_lsn` comes next. -/
  | logged (f : FrameId) (lsn : Nat)
  /-- Before the release; the call returns after it (`stop`) or goes on. -/
  | done (f : FrameId) (stop : Bool)
  /-- The visit is over. -/
  | left

/-- A call: the visit that it makes and those that are left. -/
structure Thread where
  visit : Visit
  rest : List Visit
  stage : Stage

/-- The page that is visited. -/
def Thread.page (t : Thread) : PageId := t.visit.page

/-- The node that owns the pages. -/
structure OwnerNode where
  locks : PageId → LocalPageLock
  pool : Pool
  images : FrameId → Page
  /-- The version of each page before the first logged change. -/
  stored : PageId → Nat
  records : PageId → List LogRecord
  currentLLSN : Nat
  threads : List Thread

/-- What can happen next; most steps are taken by the thread of a given number. -/
inductive OwnerAction where
  | call (c : Call)
  /-- `LockShared` or `LockExclusive` -/
  | lock (i : Nat)
  /-- `try_fetch_page` -/
  | tryFetch (i : Nat)
  /-- `GetPageWithLsn` returns. -/
  | readStorage (i : Nat) (image : Page)
  | checkFree (i : Nat)
  /-- `insert_or_replace` into a free frame. -/
  | insertFree (i : Nat)
  /-- `tryVictim` begins with partition `start`. -/
  | startProbe (i start : Nat)
  /-- `tryVictim` looks into the next partition. -/
  | probe (i : Nat)
  /-- The first read of `pages[frame]->page_id_`. -/
  | readVictim (i : Nat)
  | tryBeginEvict (i : Nat)
  | endVictim (i : Nat)
  /-- The second read of `pages[frame]->page_id_`. -/
  | readAgain (i : Nat)
  /-- `fetch_page` of the victim. -/
  | fetchVictim (i : Nat)
  /-- `insert_or_replace` into the victim's frame. -/
  | replace (i : Nat)
  | endEvict (i : Nat)
  /-- `UnlockMtx`, and the fetch returns. -/
  | unlockMtx (i : Nat)
  /-- What the caller does with the page, which is at address `addr`. -/
  | work (i : Nat) (addr : UInt64)
  | setNewestLsn (i : Nat)
  /-- `local_release_s_page` or `local_release_x_page` -/
  | release (i : Nat)
  /-- The call goes on with its next visit. -/
  | next (i : Nat)
  | addMetadataLog

/-! ## What the callers do with a page -/

section Work

variable (tab : Dtx.Table) (me : Nat)

/-- `GetDataItem` and `Get_2pc_Local_page` lock a tuple unless it is locked; the second one writes
the tuple's value pointer (`touch`) if the transaction gets or has the tuple. Returns the LSN of the
lock's record if there is one. -/
def lockTuple (st : Dtx.State) (slotNo startTs holderNode : Nat) (touch : DataItem → DataItem) :
    Outcome (Dtx.State × Option Nat) :=
  let row := st.page.slots slotNo
  if row.item.lock = UNLOCKED then do
    let item := { touch row.item with
      lock := EXCLUSIVE_LOCKED
      timeStamp := startTs
      holderNode := UInt8.ofNat holderNode
      lockOwnerNode := UInt8.ofNat me }
    let st ← (st.setRow slotNo { row with item := item }).addLockLog tab me slotNo EXCLUSIVE_LOCKED
      startTs holderNode me
    return (st, some st.page.hdr.llsn)
  else if row.item.lock = EXCLUSIVE_LOCKED ∧ row.item.timeStamp = startTs then
    return (st.setRow slotNo { row with item := touch row.item }, none)
  else return (st, none)

/-- `Prepare`'s check of one write. -/
def validWrite (st : Dtx.State) (slotNo : Nat) (key : UInt64) (valueSize startTs coordinator : Nat) :
    Bool :=
  let row := st.page.slots slotNo
  st.page.bitmap slotNo && row.key = key && row.item.valid ≠ 0 && row.item.tableId = tab.tableId &&
    row.item.valueSize = valueSize && row.item.lock = EXCLUSIVE_LOCKED &&
    row.item.timeStamp = startTs && row.item.holderNode = UInt8.ofNat coordinator &&
    row.item.lockOwnerNode = UInt8.ofNat me

/-- `Commit`, `Abort`, `Tx2PCCommitLocal` and `Tx2PCAbortLocal` unlock a tuple. -/
def unlockTuple (st : Dtx.State) (addr : UInt64) (slotNo : Nat) (u : Unlock) :
    Outcome (Dtx.State × Option Nat) := do
  let row := st.getDataItem slotNo addr
  cassert (row.item.lock = EXCLUSIVE_LOCKED)
  cassert (∀ c ∈ u.coordinator, row.item.holderNode = UInt8.ofNat c ∧
    row.item.lockOwnerNode = UInt8.ofNat me)
  cassert (∀ key ∈ u.expectedKey, row.key = key)
  let value := u.write.elim row.value fun w => Dtx.copyInto row.value 0 w.1
  let item := u.write.elim row.item fun w => { row.item with commitTimeStamp := w.2 }
  let item ← Dtx.State.unlockTupleWithHandoff item (u.startTs.getD row.item.timeStamp) u.handoff
  let st ← (st.setRow slotNo { row with item := item, value := value }).addUpdateLog tab me item
    (some (u.logKey.getD row.key)) slotNo value (u.write.elim 0 (·.2))
  return (st, some st.page.hdr.llsn)

end Work

namespace OwnerNode

/-- Nothing is cached and nobody calls. -/
def init (poolSize : Nat) (image : Page) (stored : PageId → Nat) (currentLLSN : Nat) : OwnerNode where
  locks _ := .init
  pool := .init poolSize
  images _ := image
  stored := stored
  records _ := []
  currentLLSN := currentLLSN
  threads := []

/-- The version of the page after its last logged change. -/
def lastLsn (s : OwnerNode) (p : PageId) : Nat := ((s.records p).getLast?.map (·.lsn)).getD (s.stored p)

/-- Thread `i` moves on. -/
def setStage (s : OwnerNode) (i : Nat) (t : Thread) (stage : Stage) : OwnerNode :=
  { s with threads := s.threads.set i { t with stage := stage } }

/-- The lock of a page is written. -/
def setLock (s : OwnerNode) (p : PageId) (l : LocalPageLock) : OwnerNode :=
  { s with locks := Function.update s.locks p l }

/-- What the thread with the page in frame `f` works on. -/
def inHand (s : OwnerNode) (p : PageId) (f : FrameId) : Dtx.State where
  page := s.images f
  currentLLSN _ := s.currentLLSN
  records := s.records p
  txs _ := none

/-- Thread `i`, or the step is not possible. -/
def thread (s : OwnerNode) (i : Nat) : Outcome Thread :=
  match s.threads[i]? with
  | some t => .next t
  | none => .blocked

/-- A call arrives. -/
def call (s : OwnerNode) (c : Call) : Outcome OwnerNode :=
  match c.visits with
  | [] => return s
  | v :: vs => return { s with threads := s.threads ++ [{ visit := v, rest := vs, stage := .idle }] }

/-! ## The fetch -/

/-- `LockShared` or `LockExclusive`; the mutex stays locked. -/
def lock (s : OwnerNode) (i : Nat) : Outcome OwnerNode := do
  let t ← s.thread i
  match t.stage with
  | .idle => do
    let l ← if t.visit.exclusive then (s.locks t.page).lockExclusive
      else (s.locks t.page).lockShared
    return (s.setLock t.page l).setStage i t .locked
  | _ => .blocked

/-- Is the page in the pool? -/
def tryFetch (s : OwnerNode) (i : Nat) : Outcome OwnerNode := do
  let t ← s.thread i
  match t.stage with
  | .locked =>
    match s.pool.pageTable t.page with
    | some f => do
      let pool ← s.pool.fetchPage t.page
      cassert ((s.pool.pages f).pageId = some t.page)
      return { s with pool := pool }.setStage i t (.found f)
    | none => return s.setStage i t (.fetching (s.locks t.page).newestLsn)
  | _ => .blocked

/-- The page is not older than what is asked for, and storage has no record that has not been logged. -/
def readStorage (s : OwnerNode) (i : Nat) (image : Page) : Outcome OwnerNode := do
  let t ← s.thread i
  match t.stage with
  | .fetching lsn => do
    await (lsn ≤ image.hdr.llsn)
    await (image.hdr.llsn = s.stored t.page ∨ ∃ r ∈ s.records t.page, r.lsn = image.hdr.llsn)
    return s.setStage i t (.checking image)
  | _ => .blocked

/-- Is there a free frame? -/
def checkFree (s : OwnerNode) (i : Nat) : Outcome OwnerNode := do
  let t ← s.thread i
  match t.stage with
  | .checking image => do
    let (pool, frame) ← s.pool.checkIfDirectlyPutInBuffer t.page
    match frame with
    | some f => return { s with pool := pool }.setStage i t (.reserved image f)
    | none => return { s with pool := pool }.setStage i t (.choosing image)
  | _ => .blocked

/-- `insert_or_replace`, with the copy of the data. -/
def insert (s : OwnerNode) (p : PageId) (f : FrameId) (victim : Option PageId) (image : Page) :
    Outcome OwnerNode := do
  let pool ← s.pool.insertOrReplace p f victim
  return { s with pool := pool, images := Function.update s.images f image }

/-- The page goes into the free frame. -/
def insertFree (s : OwnerNode) (i : Nat) : Outcome OwnerNode := do
  let t ← s.thread i
  match t.stage with
  | .reserved image f => do
    let s ← s.insert t.page f none image
    return s.setStage i t (.found f)
  | _ => .blocked

/-- `tryVictim` begins with partition `start`. -/
def startProbe (s : OwnerNode) (i start : Nat) : Outcome OwnerNode := do
  let t ← s.thread i
  match t.stage with
  | .choosing image => return s.setStage i t (.probing image start 0)
  | _ => .blocked

/-- `tryVictim` looks into one partition. -/
def probe (s : OwnerNode) (i : Nat) : Outcome OwnerNode := do
  let t ← s.thread i
  match t.stage with
  | .probing image start k =>
    match s.pool.replacer.probe ((start + k) % NUM_BUFFER_PARTITION) with
    | some f =>
      let pool := { s.pool with replacer := s.pool.replacer.choose f }
      return { s with pool := pool }.setStage i t (.picked image f)
    | none => do
      -- `assert(res)` after the last partition
      cassert (k + 1 < NUM_BUFFER_PARTITION)
      return s.setStage i t (.probing image start (k + 1))
  | _ => .blocked

/-- The page of the frame is read, without a lock. -/
def readVictim (s : OwnerNode) (i : Nat) : Outcome OwnerNode := do
  let t ← s.thread i
  match t.stage with
  | .picked image f =>
    match (s.pool.pages f).pageId with
    | none => return s.setStage i t (.giveUp image f)
    | some victim => return s.setStage i t (.read image f victim)
  | _ => .blocked

/-- `TryBeginEvict` on the lock of the victim. -/
def tryBeginEvict (s : OwnerNode) (i : Nat) : Outcome OwnerNode := do
  let t ← s.thread i
  match t.stage with
  | .read image f victim => do
    let (l, ok) ← (s.locks victim).tryBeginEvict
    if ok then return (s.setLock victim l).setStage i t (.won image f victim)
    else return (s.setLock victim l).setStage i t (.giveUp image f)
  | _ => .blocked

/-- `endVictim` of the frame. -/
def endVictim (s : OwnerNode) (i : Nat) : Outcome OwnerNode := do
  let t ← s.thread i
  match t.stage with
  | .giveUp image f =>
    let pool := { s.pool with replacer := s.pool.replacer.endVictim false f }
    return { s with pool := pool }.setStage i t (.choosing image)
  | .won image f victim =>
    let pool := { s.pool with replacer := s.pool.replacer.endVictim true f }
    return { s with pool := pool }.setStage i t (.begun image f victim)
  | _ => .blocked

/-- The page of the frame is read again. -/
def readAgain (s : OwnerNode) (i : Nat) : Outcome OwnerNode := do
  let t ← s.thread i
  match t.stage with
  | .begun image f victim =>
    match (s.pool.pages f).pageId with
    | none => return s.setStage i t (.lost image victim)
    | some _ => return s.setStage i t (.chosen image f victim)
  | _ => .blocked

/-- The victim is fetched and so pinned. -/
def fetchVictim (s : OwnerNode) (i : Nat) : Outcome OwnerNode := do
  let t ← s.thread i
  match t.stage with
  | .chosen image f victim => do
    let pool ← s.pool.fetchPage victim
    return { s with pool := pool }.setStage i t (.pinned image f victim)
  | _ => .blocked

/-- The page replaces the victim in its frame. -/
def replace (s : OwnerNode) (i : Nat) : Outcome OwnerNode := do
  let t ← s.thread i
  match t.stage with
  | .pinned image f victim => do
    let s ← s.insert t.page f (some victim) image
    return s.setStage i t (.replaced f victim)
  | _ => .blocked

/-- `EndEvict` on the lock of the victim. -/
def endEvict (s : OwnerNode) (i : Nat) : Outcome OwnerNode := do
  let t ← s.thread i
  match t.stage with
  | .lost image victim => do
    let l ← (s.locks victim).endEvict
    return (s.setLock victim l).setStage i t (.choosing image)
  | .replaced f victim => do
    let l ← (s.locks victim).endEvict
    return (s.setLock victim l).setStage i t (.found f)
  | _ => .blocked

/-- The page is there: `UnlockMtx`. -/
def unlockMtx (s : OwnerNode) (i : Nat) : Outcome OwnerNode := do
  let t ← s.thread i
  match t.stage with
  | .found f => do
    cassert ((s.pool.pages f).pageId = some t.page)
    return (s.setLock t.page (s.locks t.page).unlockMtx).setStage i t (.holding f)
  | _ => .blocked

/-! ## The work, and the release -/

variable (tab : Dtx.Table) (me : Nat)

/-- The page of a thread, its records and the counter after the thread's work. -/
def worked (s : OwnerNode) (p : PageId) (f : FrameId) (st : Dtx.State) : OwnerNode :=
  { s with
    images := Function.update s.images f st.page
    records := Function.update s.records p st.records
    currentLLSN := st.currentLLSN me }

/-- After a change: with a record `set_newest_lsn` comes next, otherwise the release. -/
def afterWork (s : OwnerNode) (i : Nat) (t : Thread) (f : FrameId) :
    Dtx.State × Option Nat → OwnerNode
  | (st, some lsn) => (s.worked me t.page f st).setStage i t (.logged f lsn)
  | (st, none) => (s.worked me t.page f st).setStage i t (.done f false)

/-- What the visit is for. -/
def work (s : OwnerNode) (i : Nat) (addr : UInt64) : Outcome OwnerNode := do
  let t ← s.thread i
  match t.stage with
  | .holding f =>
    let st := s.inHand t.page f
    let tab := { tab with pageNo := t.page }
    match t.visit with
    | .read _ => return s.setStage i t (.done f false)
    | .lockRemote _ slotNo startTs requesterNode => do
      let r ← lockTuple tab me st slotNo startTs requesterNode id
      return s.afterWork me i t f r
    | .lockLocal _ slotNo key startTs => do
      cassert ((st.page.slots slotNo).key = key)
      let r ← lockTuple tab me st slotNo startTs me fun item => { item with value := addr }
      return s.afterWork me i t f r
    | .validate _ slotNo key valueSize startTs coordinator =>
      return s.setStage i t
        (.done f (!validWrite tab me st slotNo key valueSize startTs coordinator))
    | .peek _ slotNo => do
      cassert ((st.page.slots slotNo).item.lock = EXCLUSIVE_LOCKED)
      return s.setStage i t (.done f false)
    | .unlock _ slotNo u => do
      let r ← unlockTuple tab me st addr slotNo u
      return s.afterWork me i t f r
  | _ => .blocked

/-- The LLSN of the change is stored in the lock. -/
def setNewestLsn (s : OwnerNode) (i : Nat) : Outcome OwnerNode := do
  let t ← s.thread i
  match t.stage with
  | .logged f lsn =>
    return (s.setLock t.page { s.locks t.page with newestLsn := lsn }).setStage i t (.done f false)
  | _ => .blocked

/-- The lock is released. -/
def release (s : OwnerNode) (i : Nat) : Outcome OwnerNode := do
  let t ← s.thread i
  match t.stage with
  | .done _ stop => do
    let l ← if t.visit.exclusive then (s.locks t.page).unlockExclusive
      else (s.locks t.page).unlockShared
    -- the last reader and every writer unpin the page
    let pool ← if l.lock = 0 then s.pool.unpinPage t.page else .next s.pool
    let t := { t with rest := if stop then [] else t.rest }
    return { s.setLock t.page l.unlockMtx with pool := pool }.setStage i t .left
  | _ => .blocked

/-- The call goes on to its next page. -/
def next (s : OwnerNode) (i : Nat) : Outcome OwnerNode := do
  let t ← s.thread i
  match t.stage, t.rest with
  | .left, v :: vs =>
    return { s with threads := s.threads.set i { visit := v, rest := vs, stage := .idle } }
  | _, _ => .blocked

/-- One step of one thread. -/
def step (s : OwnerNode) : OwnerAction → Outcome OwnerNode
  | .call c => s.call c
  | .lock i => s.lock i
  | .tryFetch i => s.tryFetch i
  | .readStorage i image => s.readStorage i image
  | .checkFree i => s.checkFree i
  | .insertFree i => s.insertFree i
  | .startProbe i start => s.startProbe i start
  | .probe i => s.probe i
  | .readVictim i => s.readVictim i
  | .tryBeginEvict i => s.tryBeginEvict i
  | .endVictim i => s.endVictim i
  | .readAgain i => s.readAgain i
  | .fetchVictim i => s.fetchVictim i
  | .replace i => s.replace i
  | .endEvict i => s.endEvict i
  | .unlockMtx i => s.unlockMtx i
  | .work i addr => s.work tab me i addr
  | .setNewestLsn i => s.setNewestLsn i
  | .release i => s.release i
  | .next i => s.next i
  | .addMetadataLog => return { s with currentLLSN := s.currentLLSN + 1 }

end OwnerNode

end BufferPool
