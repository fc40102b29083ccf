import HybridCloud.LazyRelease.PageTransfer

/-!
# Lock calls that are interrupted

In `LazyRelease.Protocol` a call of `LockShared` or `LockExclusive` is one step. That is right as long
as nobody unlocks the mutex between the tests of the call and its stores. An eviction that has lost
its victim does: it calls `UnlockMtx` without having locked (`put_page_into_buffe_lazy` in
src/compute_server/server.h), and the thread that did hold the mutex will later unlock it for whoever
has taken it since. Here a lock call may be interrupted between its tests and its stores; all other
steps are those of `PageTransfer`.
-/

namespace LockCalls

open GPLM LazyRelease LRLocalPageLock Storage Outcome Function

variable {N : Nat} {α : Type}

/-- The system, and the lock calls that are between their tests and their stores. -/
structure State (N : Nat) (α : Type) where
  transfer : PageTransfer.State N α
  calls : NodeId N → List LockCall

namespace State

/-- The protocol for the page. -/
def sys (s : State N α) : LazyRelease.State N α := s.transfer.sys

/-- No call has begun. -/
def init (base : Page α) : State N α where
  transfer := .init base
  calls _ := []

/-- A lock call up to its last test. -/
def lockTests (s : State N α) (n : NodeId N) (x : Bool) : Outcome (State N α) := do
  let nd := s.sys.nodes n
  let (lk, c) ← nd.lk.lockTests x
  return {
    transfer := { s.transfer with sys := s.sys.setNode n { nd with lk := lk } }
    calls := update s.calls n (c :: s.calls n) }

/-- The rest of the lock call, and what the fetch does next. -/
def lockStores (s : State N α) (n : NodeId N) (c : LockCall) : Outcome (State N α) := do
  await (c ∈ s.calls n)
  let sys ← s.sys.afterLock n c.x ((s.sys.nodes n).lk.lockStores c) c.lockRemote
  return {
    transfer := { s.transfer with sys := sys }
    calls := update s.calls n ((s.calls n).erase c) }

end State

/-- The steps of `PageTransfer`, and the halves of a lock call. -/
inductive Action (N : Nat) (α : Type) where
  /-- Any step of `PageTransfer`; a lock call among them is not interrupted. -/
  | transfer (a : PageTransfer.Action N α)
  | lockTests (n : NodeId N) (x : Bool)
  | lockStores (n : NodeId N) (c : LockCall)

/-- One step. -/
def step [DecidableEq α] (key : PageKey) (s : State N α) : Action N α → Outcome (State N α)
  | .transfer a => do
    let t ← PageTransfer.step key s.transfer a
    return { s with transfer := t }
  | .lockTests n x => s.lockTests n x
  | .lockStores n c => s.lockStores n c

end LockCalls
