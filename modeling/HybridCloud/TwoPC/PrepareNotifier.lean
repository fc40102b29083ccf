import HybridCloud.TwoPC.PreparedTxn

/-!
# Votes at storage

`DurablePrepareNotifier` (src/core/storage/prepare_notifier.cc) reads every durable batch of log
records. It collects the PREPARED records of a transaction and tells the coordinator once, when it has
seen one of every participant. The most recent completed transactions are remembered, so that a
repeated record does not start a new collection.
-/

namespace TwoPC

open Outcome

/-- The votes for a transaction. -/
structure VoteSet where
  metadata : AllPreparedRequest
  /-- The vote of each node that has been seen. -/
  votes : List (Int × PrepareRequest)
  notified : Bool
  deriving DecidableEq, Repr

/-- `DurablePrepareNotifier` with its `State`. -/
structure Notifier where
  transactions : TxnIdentity → Option VoteSet
  completed : TxnIdentity → Option AllPreparedRequest
  completionOrder : List TxnIdentity
  /-- The number of coordinators that can be told. -/
  channels : Nat

/-- How many completed transactions are kept. -/
def kRecentCompletions : Nat := 4096

/-- `tx.votes.emplace` and the check for a conflicting vote. -/
def VoteSet.emplace (tx : VoteSet) (r : PrepareRequest) : Outcome VoteSet :=
  match tx.votes.lookup r.participantNode with
  | none => return { tx with votes := (r.participantNode, r) :: tx.votes }
  | some vote => do
    cassert (vote = r)
    return tx

namespace Notifier

/-- No votes. -/
def init (channels : Nat) : Notifier := ⟨fun _ => none, fun _ => none, [], channels⟩

/-- The votes for one transaction change. -/
def setVotes (st : Notifier) (id : TxnIdentity) (tx : VoteSet) : Notifier :=
  { st with transactions := Function.update st.transactions id (some tx) }

/-- `AddVote`. Returns the notification to send, if any. -/
def addVote (st : Notifier) (r : PrepareRequest) :
    Outcome (Notifier × Option AllPreparedRequest) :=
  match st.completed r.id with
  | some done => do
    cassert (done = metadata r)
    return (st, none)
  | none => do
    let tx := (st.transactions r.id).getD ⟨metadata r, [], false⟩
    cassert (tx.metadata = metadata r)
    let tx ← tx.emplace r
    if tx.notified = true ∨ tx.votes.length ≠ tx.metadata.participants.length then
      return (st.setVotes r.id tx, none)
    else
      cassert (∀ node ∈ tx.metadata.participants, (tx.votes.lookup node).isSome = true)
      return (st.setVotes r.id { tx with notified := true }, some tx.metadata)

/-- `ObserveDurableBatch` for one PREPARED record, up to `Send`. -/
def observe (st : Notifier) (r : PrepareRequest) :
    Outcome (Notifier × Option AllPreparedRequest) := do
  cassert (validRequest r = true) -- `Decode`
  if r.protocolVersion = kProtocolVersion then
    cassert (r.id.coordinatorNode < st.channels)
    st.addVote r
  else
    return (st, none)

/-- The loop at the end of `NotifyDone`. -/
def forget (completed : TxnIdentity → Option AllPreparedRequest) :
    List TxnIdentity → (TxnIdentity → Option AllPreparedRequest) × List TxnIdentity
  | [] => (completed, [])
  | id :: ids =>
    if kRecentCompletions < (id :: ids).length then
      forget (Function.update completed id none) ids
    else
      (completed, id :: ids)

/-- `NotifyDone` after the check of the response. -/
def notifyDone (st : Notifier) (m : AllPreparedRequest) : Notifier :=
  let completed := match st.completed m.id with
    | some _ => st.completed
    | none => Function.update st.completed m.id (some m)
  let (completed, completionOrder) := forget completed (st.completionOrder ++ [m.id])
  { st with
    transactions := Function.update st.transactions m.id none
    completed := completed
    completionOrder := completionOrder }

/-- The notifier knows the transaction. -/
def Tracked (st : Notifier) (id : TxnIdentity) : Prop :=
  st.transactions id ≠ none ∨ st.completed id ≠ none

instance (st : Notifier) (id : TxnIdentity) : Decidable (st.Tracked id) :=
  inferInstanceAs (Decidable (_ ∨ _))

end Notifier

end TwoPC
