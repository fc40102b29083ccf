import HybridCloud.Lib.Transition
import HybridCloud.TwoPC.PrepareNotifier

/-!
# Two-phase commit with votes collected at storage

Protocol version 2: the coordinator registers a waiter, sends Prepare to every participant and waits
for AllPrepared (src/core/compute_node/prepare_notification.cc); a participant logs its vote and marks
its context prepared once the record is durable (`TwoPCServiceImpl::Prepare`); storage reads the
durable batches and notifies the coordinator; only then does the coordinator send Commit.

Messages are kept after they have been delivered, so that they may be delivered late and more than
once. A durable batch is any list of records that participants have logged, and its records are
observed in any order: batches of different nodes are observed at the same time. What the participant
checks on the pages of its write set is left open; it may accept or refuse.
-/

namespace TwoPC.StorageNotified

open Outcome

/-- `Requests`: the Prepare request of each participant. -/
abbrev Requests := List (Int × PrepareRequest)

/-- A coordinator that waits for the votes. -/
structure Waiter where
  metadata : AllPreparedRequest
  durable : Bool
  deriving DecidableEq

/-- A Prepare handler that has made a new context. -/
structure PrepareHandler where
  node : Int
  context : Nat
  /-- The record of the vote has been put into the log. -/
  logged : Bool
  deriving DecidableEq

/-- A Commit handler that has found a context. -/
structure CommitHandler where
  node : Int
  context : Nat
  /-- `TakeForCommit` has returned the context. -/
  applying : Bool
  deriving DecidableEq

/-- Coordinators, participants and the storage node. -/
structure State where
  notifier : Notifier
  /-- `waiters_`, of the coordinator that the identity names. -/
  waiters : TxnIdentity → Option Waiter
  registries : Int → Registry
  /-- Calls of `PrepareNotifications::Prepare` that wait. -/
  preparing : List Requests
  /-- Calls of `PrepareNotifications::Prepare` that have returned. -/
  prepared : List Requests
  prepares : List PrepareRequest
  prepareHandlers : List PrepareHandler
  /-- The PREPARED records that participants have put into their logs. -/
  logged : List PrepareRequest
  /-- The PREPARED records of durable batches. -/
  durable : List PrepareRequest
  /-- Those that `ObserveDurableBatch` has not come to. -/
  unobserved : List PrepareRequest
  /-- AllPrepared requests that have been sent. -/
  notifications : List AllPreparedRequest
  /-- Those whose RPC is not done, with the answer. -/
  calls : List (AllPreparedRequest × Option Bool)
  commits : List (Int × CommitRequest)
  commitHandlers : List CommitHandler
  /-- Ghost: the PREPARED records that `ObserveDurableBatch` has seen. -/
  observed : List PrepareRequest
  /-- Ghost: the transactions that have been started, with their metadata. -/
  started : TxnIdentity → Option AllPreparedRequest
  /-- Ghost: how many notifications `AddVote` has returned for a transaction since storage knows it. -/
  notified : TxnIdentity → Nat

namespace State

/-- Nothing has begun. -/
def init (channels : Nat) : State where
  notifier := .init channels
  waiters _ := none
  registries _ := .init
  preparing := []
  prepared := []
  prepares := []
  prepareHandlers := []
  logged := []
  durable := []
  unobserved := []
  notifications := []
  calls := []
  commits := []
  commitHandlers := []
  observed := []
  started _ := none
  notified _ := 0

/-- One participant changes. -/
def setRegistry (s : State) (n : Int) (g : Registry) : State :=
  { s with registries := Function.update s.registries n g }

/-! ## The coordinator -/

/-- `PrepareNotifications::Prepare` up to the wait. -/
def prepare (s : State) (requests : Requests) : Outcome State :=
  match requests with
  | [] => abort
  | (node, first) :: rest => do
    cassert (rest ≠ [])
    cassert (first.participants.length = requests.length)
    cassert (∀ n ∈ first.participants, (requests.lookup n).isSome = true)
    cassert (∀ e ∈ (node, first) :: rest, e.1 = e.2.participantNode ∧
      e.2.protocolVersion = kProtocolVersion ∧ validRequest e.2 = true ∧
      metadata e.2 = metadata first)
    cassert (s.waiters first.id = none)
    return { s with
      waiters := Function.update s.waiters first.id (some ⟨metadata first, false⟩)
      preparing := requests :: s.preparing
      prepares := s.prepares ++ requests.map Prod.snd
      started := Function.update s.started first.id (some (metadata first)) }

/-- The rest of `PrepareNotifications::Prepare`. -/
def prepareReturn (s : State) (requests : Requests) : Outcome State := do
  await (requests ∈ s.preparing)
  match requests with
  | [] => blocked
  | (_, first) :: _ =>
    await ((s.waiters first.id).map Waiter.durable = some true)
    return { s with
      waiters := Function.update s.waiters first.id none
      preparing := s.preparing.erase requests
      prepared := requests :: s.prepared }

/-- The notification reaches the waiter. -/
def accept (s : State) (m : AllPreparedRequest) : State × Bool :=
  if m.protocolVersion ≠ kProtocolVersion ∨ m.identity = none ∨ validIdentity m.id = false then
    (s, false)
  else match s.waiters m.id with
    | none => (s, true)
    | some w =>
      if m ≠ w.metadata then (s, false)
      else ({ s with waiters := Function.update s.waiters m.id (some { w with durable := true }) },
        true)

/-- `PrepareNotifications::Commit` sends its requests. -/
def commit (s : State) (requests : Requests) : Outcome State := do
  await (requests ∈ s.prepared)
  return { s with
    commits := s.commits ++ requests.map fun e =>
      (e.1, ⟨e.2.transactionId, e.2.identity, e.2.startTs, e.2.commitTs⟩) }

/-! ## A participant -/

/-- `TwoPCServiceImpl::Prepare` up to the checks on the pages. -/
def deliverPrepare (s : State) (r : PrepareRequest) : Outcome State := do
  await (r ∈ s.prepares)
  let n := r.participantNode
  match (s.registries n).begin r with
  | (g, some c, true) =>
    return { s.setRegistry n g with
      prepareHandlers := ⟨n, c, false⟩ :: s.prepareHandlers }
  | (_, _, _) => return s -- a duplicate is answered at once, a conflicting request refused

/-- The participant says no. -/
def refuse (s : State) (h : PrepareHandler) : Outcome State := do
  await (h ∈ s.prepareHandlers ∧ h.logged = false)
  return { s.setRegistry h.node ((s.registries h.node).erase h.context) with
    prepareHandlers := s.prepareHandlers.erase h }

/-- The checks succeed, and the vote is put into the log. -/
def logVote (s : State) (h : PrepareHandler) : Outcome State := do
  await (h ∈ s.prepareHandlers ∧ h.logged = false)
  match (s.registries h.node).heap[h.context]? with
  | none => blocked
  | some x => return { s with
      prepareHandlers := { h with logged := true } :: s.prepareHandlers.erase h
      logged := s.logged ++ [x.request] }

/-- `wait_log_flush` returns, and the context is marked. -/
def markPrepared (s : State) (h : PrepareHandler) (lsn : Nat) : Outcome State := do
  await (h ∈ s.prepareHandlers ∧ h.logged = true)
  match (s.registries h.node).heap[h.context]? with
  | none => blocked
  | some x =>
    await (x.request ∈ s.durable)
    return { s.setRegistry h.node ((s.registries h.node).markPrepared h.context lsn) with
      prepareHandlers := s.prepareHandlers.erase h }

/-- `TwoPCServiceImpl::Commit` up to the lock of the context. -/
def deliverCommit (s : State) (n : Int) (r : CommitRequest) : Outcome State := do
  await ((n, r) ∈ s.commits)
  match (s.registries n).findForCommit r with
  | none => return s
  | some c => return { s with commitHandlers := ⟨n, c, false⟩ :: s.commitHandlers }

/-- The rest of `TakeForCommit`. -/
def takeForCommit (s : State) (h : CommitHandler) : Outcome State := do
  await (h ∈ s.commitHandlers ∧ h.applying = false)
  let (g, taken) ← (s.registries h.node).takeForCommit h.context
  return { s.setRegistry h.node g with
    commitHandlers := if taken then { h with applying := true } :: s.commitHandlers.erase h
      else s.commitHandlers.erase h }

/-- The writes have been applied; the context is erased. -/
def commitDone (s : State) (h : CommitHandler) : Outcome State := do
  await (h ∈ s.commitHandlers ∧ h.applying = true)
  return { s.setRegistry h.node ((s.registries h.node).erase h.context) with
    commitHandlers := s.commitHandlers.erase h }

/-! ## Storage -/

/-- The log is made durable. -/
def logWrite (s : State) (batch : List PrepareRequest) : Outcome State := do
  await (∀ r ∈ batch, r ∈ s.logged)
  return { s with durable := s.durable ++ batch, unobserved := s.unobserved ++ batch }

/-- The count of notifications starts again when storage does not know the transaction. -/
def recount (st : Notifier) (notified : TxnIdentity → Nat) (id : TxnIdentity) : Nat :=
  if st.Tracked id then notified id else 0

/-- `ObserveDurableBatch` comes to a record. -/
def observe (s : State) (r : PrepareRequest) : Outcome State := do
  await (r ∈ s.unobserved)
  let (st, notification) ← s.notifier.observe r
  let s := { s with
    notifier := st, unobserved := s.unobserved.erase r, observed := s.observed ++ [r] }
  match notification with
  | none => return { s with notified := recount st s.notified }
  | some m => return { s with
      notifications := s.notifications ++ [m]
      calls := (m, none) :: s.calls
      notified := recount st (Function.update s.notified m.id (s.notified m.id + 1)) }

/-- AllPrepared arrives at the coordinator; if the call is not done, the coordinator answers. -/
def deliverAllPrepared (s : State) (m : AllPreparedRequest) : Outcome State := do
  await (m ∈ s.notifications)
  let (s, ok) := s.accept m
  return { s with
    calls := if (m, none) ∈ s.calls then (m, some ok) :: s.calls.erase (m, none) else s.calls }

/-- The coordinator has answered. -/
def notifyDone (s : State) (m : AllPreparedRequest) (ok : Bool) : Outcome State := do
  await ((m, some ok) ∈ s.calls)
  cassert (ok = true)
  let st := s.notifier.notifyDone m
  return { s with
    notifier := st, calls := s.calls.erase (m, some ok), notified := recount st s.notified }

end State

/-- The steps of all parties. -/
inductive Action where
  | prepare (requests : Requests)
  | prepareReturn (requests : Requests)
  | commit (requests : Requests)
  | deliverPrepare (r : PrepareRequest)
  | refuse (h : PrepareHandler)
  | logVote (h : PrepareHandler)
  | markPrepared (h : PrepareHandler) (lsn : Nat)
  | deliverCommit (n : Int) (r : CommitRequest)
  | takeForCommit (h : CommitHandler)
  | commitDone (h : CommitHandler)
  | logWrite (batch : List PrepareRequest)
  | observe (r : PrepareRequest)
  | deliverAllPrepared (m : AllPreparedRequest)
  | notifyDone (m : AllPreparedRequest) (ok : Bool)

/-- One step. -/
def step (s : State) : Action → Outcome State
  | .prepare requests => s.prepare requests
  | .prepareReturn requests => s.prepareReturn requests
  | .commit requests => s.commit requests
  | .deliverPrepare r => s.deliverPrepare r
  | .refuse h => s.refuse h
  | .logVote h => s.logVote h
  | .markPrepared h lsn => s.markPrepared h lsn
  | .deliverCommit n r => s.deliverCommit n r
  | .takeForCommit h => s.takeForCommit h
  | .commitDone h => s.commitDone h
  | .logWrite batch => s.logWrite batch
  | .observe r => s.observe r
  | .deliverAllPrepared m => s.deliverAllPrepared m
  | .notifyDone m ok => s.notifyDone m ok

/-- Different transactions have different identities. -/
def Allowed (s : State) : Action → Prop
  | .prepare ((_, first) :: _) => s.started first.id = none
  | _ => True

instance (s : State) (a : Action) : Decidable (Allowed s a) :=
  match a with
  | .prepare ((_, _) :: _) => inferInstanceAs (Decidable (_ = _))
  | .prepare [] | .prepareReturn _ | .commit _ | .deliverPrepare _ | .refuse _ | .logVote _
  | .markPrepared _ _ | .deliverCommit _ _ | .takeForCommit _ | .commitDone _ | .logWrite _
  | .observe _ | .deliverAllPrepared _ | .notifyDone _ _ => .isTrue trivial

end TwoPC.StorageNotified
