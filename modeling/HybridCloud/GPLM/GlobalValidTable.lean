import HybridCloud.Lib.Outcome

/-!
# The validity table of a page directory

`GlobalValidInfo` (src/core/GPLM/global_valid_table.h) records, for one page, which compute nodes
have the newest image of it in their buffer and which of them the directory asks for a copy.
`N` is the number of compute nodes; a node id is an element of `Fin N`, and the C++ value
`INVALID_NODE_ID` (or `-1`) is `none`.

Every function keeps the lock calls of the source, including those that take the mutex in one
function and release it in another (`globalLock` … `setValidAndUpdateNewest`).
-/

namespace GPLM

/-- Node ids of a cluster with `N` compute nodes (`node_id_t`). -/
abbrev NodeId (N : Nat) := Fin N

instance {N : Nat} : LawfulBEq (NodeId N) := inferInstance

/-- The nodes of a system of two are written as numerals. -/
instance neZero_two : NeZero 2 := ⟨by decide⟩

/-- Which nodes have the newest image of one page. -/
structure GlobalValidInfo (N : Nat) where
  /-- The node the directory takes the page from; `none` when the newest image is in storage. -/
  newestNode : Option (NodeId N)
  /-- Per node: does it have the newest image? -/
  nodeHasNewestPageStatus : NodeId N → Bool
  mutex : Mutex

namespace GlobalValidInfo

variable {N : Nat}

/-- The constructor (and `MarkOnluInStorage`): no node has the page. -/
def onlyInStorage : GlobalValidInfo N where
  newestNode := none
  nodeHasNewestPageStatus := fun _ => false
  mutex := .free

/-- The first node whose status bit is set: the scan that looks for another newest node. -/
def hasAnyValid (v : GlobalValidInfo N) : Option (NodeId N) :=
  (List.finRange N).find? fun i => v.nodeHasNewestPageStatus i

/-- One node has the newest page, or not. -/
def setStatus (v : GlobalValidInfo N) (n : NodeId N) (status : Bool) : GlobalValidInfo N :=
  { v with nodeHasNewestPageStatus := Function.update v.nodeHasNewestPageStatus n status }

/-- The mutex of the entry. -/
def globalLock (v : GlobalValidInfo N) : Outcome (GlobalValidInfo N) := do
  let m ← v.mutex.lock
  return { v with mutex := m }

/-- `mutex.unlock()` as the last call of a function. -/
def unlock (v : GlobalValidInfo N) : GlobalValidInfo N :=
  { v with mutex := v.mutex.unlock }

/-- The node that pushes the page. -/
def getNewestNodeID (v : GlobalValidInfo N) :
    Outcome (GlobalValidInfo N × Option (NodeId N)) := do
  let v ← v.globalLock
  return (v.unlock, v.newestNode)

/-- Does the node have the newest page? -/
def isValidNoBlock (v : GlobalValidInfo N) (n : NodeId N) : Bool :=
  v.nodeHasNewestPageStatus n

/-- The same, under the mutex. -/
def isValid (v : GlobalValidInfo N) (n : NodeId N) : Outcome (GlobalValidInfo N × Bool) := do
  let v ← v.globalLock
  return (v.unlock, v.isValidNoBlock n)

/-- The node that pushes is replaced when it loses the page. -/
def setNodeStatusNoBlock (v : GlobalValidInfo N) (n : NodeId N) (status : Bool) :
    GlobalValidInfo N :=
  let v := v.setStatus n status
  if !status && v.newestNode = some n then
    { v with newestNode := v.hasAnyValid }
  else v

/-- `ReleasePageNoBlock`: the node gives the page up, and if it was the newest one the first
remaining valid node takes its place. -/
def releasePageNoBlock (v : GlobalValidInfo N) (n : NodeId N) : GlobalValidInfo N :=
  let v := v.setStatus n false
  if v.newestNode = some n then
    { v with newestNode := v.hasAnyValid }
  else v

/-- The same, under the mutex. -/
def releasePage (v : GlobalValidInfo N) (n : NodeId N) : Outcome (GlobalValidInfo N) := do
  let v ← v.globalLock
  return (v.releasePageNoBlock n).unlock

/-- `setNodeStatus`. The loop that looks for a replacement newest node unlocks the mutex when it
finds one, and the function unlocks it once more before it returns. -/
def setNodeStatus (v : GlobalValidInfo N) (n : NodeId N) (status : Bool) :
    Outcome (GlobalValidInfo N) := do
  let v ← v.globalLock
  let v := v.setStatus n status
  if !status && v.newestNode = some n then
    match v.hasAnyValid with
    | some i => return ({ v with newestNode := some i }.unlock).unlock
    | none => return { v with newestNode := none }.unlock
  else return v.unlock

/-- `GetValid` as the lock calls use it: where to take the page from, and whether storage has to
be read. The asking node counts as valid from here on. -/
def getValid (v : GlobalValidInfo N) (n : NodeId N) :
    Outcome (GlobalValidInfo N × Option (NodeId N) × Bool) := do
  let v ← v.globalLock
  if v.nodeHasNewestPageStatus n then
    return (v.unlock, none, false)
  else
    let ret := v.newestNode
    let v := v.setStatus n true
    if ret = none then
      return ({ v with newestNode := some n }.unlock, ret, true)
    else
      return (v.unlock, ret, false)

/-- `SetValidAndUpdateNewest`: called with the mutex taken by `globalLock`, releases it. -/
def setValidAndUpdateNewest (v : GlobalValidInfo N) (n : NodeId N) : GlobalValidInfo N :=
  { v.setStatus n true with newestNode := some n }.unlock

end GlobalValidInfo

end GPLM
