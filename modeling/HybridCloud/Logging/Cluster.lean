import HybridCloud.LazyRelease.Protocol
import HybridCloud.Logging.LogBuffer

/-!
# All heap pages and the logs of the nodes

Every heap page is handled by the protocol of `LazyRelease.Protocol`, by which it moves between the
nodes by pushes and by reads from storage. A node that has a page exclusively changes it and logs the
change (src/compute_server/server.cc): the LLSN of the page goes up, from the counter of the node, and
the record names the LLSN that the page had before. The pages share the logs of the nodes.
-/

namespace Logging

open GPLM LazyRelease Outcome Storage Function

/-- The compute nodes with their logs, and the protocol of every heap page. -/
structure Cluster (N : Nat) (α : Type) where
  logs : NodeId N → LogBuffer
  pages : PageKey → State N α
  /-- Ghost: the records logged for a page by all nodes, in the order in which they were made. -/
  logged : PageKey → List LogRecord

namespace Cluster

variable {N : Nat} {α : Type}

/-- The nodes have just started; the pages are in storage. -/
def init (stored : PageKey → Page α) : Cluster N α where
  logs _ := .init
  pages key := .init (stored key)
  logged _ := []

/-- A step of the protocol of a page that does not change the page. -/
def transfer [DecidableEq α] (c : Cluster N α) (key : PageKey) (a : LazyRelease.Action N α) :
    Outcome (Cluster N α) := do
  await (a.changesPage = false)
  let page ← (c.pages key).step a
  return { c with pages := update c.pages key page }

/-- A writer changes a page and calls `AddUpdateLog`, `AddInsertLog`, `AddDeleteLog` or
`AddLockLog`. -/
def write (c : Cluster N α) (n : NodeId N) (f : α → α) (log : LogRecord) : Outcome (Cluster N α) :=
  match log.pageForLog with
  | none => .blocked
  | some key =>
    match ((c.pages key).nodes n).buffer with
    | none => .abort
    | some page => do
      let b ← (c.logs n).updatePageLLSN log page.llsn
      let st ← (c.pages key).write n f b.currentLLSN
      return {
        logs := update c.logs n b
        pages := update c.pages key st
        logged := update c.logged key
          (c.logged key ++ [{ log with lsn := b.currentLLSN, prevLsn := page.llsn }]) }

/-- The other steps of a node's log. -/
def log (c : Cluster N α) (n : NodeId N) (a : LogBuffer.Action) : Outcome (Cluster N α) := do
  await (pageOf a = none)
  let b ← (c.logs n).step a
  return { c with logs := update c.logs n b }

/-- The steps: page transfers, logged writes, and those of the logs. -/
inductive Action (N : Nat) (α : Type) where
  | transfer (key : PageKey) (a : LazyRelease.Action N α)
  | write (n : NodeId N) (f : α → α) (log : LogRecord)
  | log (n : NodeId N) (a : LogBuffer.Action)

/-- One step. -/
def step [DecidableEq α] (c : Cluster N α) : Action N α → Outcome (Cluster N α)
  | .transfer key a => c.transfer key a
  | .write n f log => c.write n f log
  | .log n a => c.log n a

end Cluster

end Logging
