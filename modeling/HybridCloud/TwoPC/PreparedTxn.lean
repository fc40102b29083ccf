import HybridCloud.Lib.Outcome

/-!
# Prepared transactions

The messages of the durable two-phase commit (src/core/compute_node/twoPC.proto) and the registry in
which a participant keeps the transactions it has voted for (src/core/compute_node/prepared_txn.h).

A message is compared by its serialized bytes in the source; two messages have the same bytes iff
they have the same fields, so the model compares the fields. A context is shared between the threads
that work on it and outlives its entry of the registry; `heap` holds all contexts that were ever
made, and a thread refers to one by its position.
-/

namespace TwoPC

open Outcome

/-- `TxnIdentity`, and also `IdentityKey`, which has the same fields. -/
structure TxnIdentity where
  coordinatorNode : Int
  coordinatorIncarnation : List UInt8
  localTxId : Nat
  deriving DecidableEq, Repr

/-- `ItemID` without `lock_data`, which a prepared write does not use. -/
structure ItemId where
  tableId : Int
  pageNo : Int
  slotId : Int
  deriving DecidableEq, Repr

/-- What a write does. -/
inductive Operation where
  | UNSUPPORTED
  | UPDATE
  deriving DecidableEq, Repr

/-- A write that is prepared. -/
structure PreparedWrite where
  itemId : Option ItemId
  tableName : String
  key : Nat
  operation : Operation
  /-- The after-image of the tuple's value. -/
  value : List UInt8
  deriving DecidableEq, Repr

/-- A vote. -/
structure PrepareRequest where
  transactionId : Nat
  protocolVersion : Nat
  identity : Option TxnIdentity
  startTs : Nat
  commitTs : Nat
  participants : List Int
  participantNode : Int
  writes : List PreparedWrite
  deriving DecidableEq, Repr

/-- What all votes have in common. -/
structure AllPreparedRequest where
  protocolVersion : Nat
  identity : Option TxnIdentity
  startTs : Nat
  commitTs : Nat
  participants : List Int
  deriving DecidableEq, Repr

/-- A `CommitRequest` of the kind PREPARED, which carries no items. -/
structure CommitRequest where
  transactionId : Nat
  identity : Option TxnIdentity
  startTs : Nat
  commitTs : Nat
  deriving DecidableEq, Repr

/-- Participants reply and the coordinator logs its decision. -/
def kParticipantReplyVersion : Nat := 1

/-- Storage collects the durable votes. -/
def kProtocolVersion : Nat := 2

/-- What reading a field of type `TxnIdentity` gives that was not set. -/
def TxnIdentity.unset : TxnIdentity := ⟨0, [], 0⟩

namespace PrepareRequest

/-- `Key(r.identity())` -/
def id (r : PrepareRequest) : TxnIdentity := r.identity.getD .unset

end PrepareRequest

namespace CommitRequest

/-- `Key(r.identity())` -/
def id (r : CommitRequest) : TxnIdentity := r.identity.getD .unset

end CommitRequest

namespace AllPreparedRequest

/-- `Key(r.identity())` -/
def id (r : AllPreparedRequest) : TxnIdentity := r.identity.getD .unset

end AllPreparedRequest

/-- The identity is complete. -/
def validIdentity (id : TxnIdentity) : Bool :=
  0 ≤ id.coordinatorNode ∧ id.coordinatorIncarnation.length = 16

/-- The participants are listed in ascending order, all above `previous`. -/
def ascending (previous : Int) : List Int → Bool
  | [] => true
  | node :: nodes => previous < node && ascending node nodes

/-- The write is complete. -/
def validWrite (w : PreparedWrite) : Bool :=
  match w.itemId with
  | none => false
  | some id => 0 ≤ id.tableId ∧ 0 < id.pageNo ∧ 0 ≤ id.slotId ∧ w.tableName ≠ "" ∧
      w.operation = .UPDATE

/-- The vote is complete. -/
def validRequest (r : PrepareRequest) : Bool :=
  (r.protocolVersion = kProtocolVersion ∨ r.protocolVersion = kParticipantReplyVersion) ∧
    r.identity ≠ none ∧ validIdentity r.id = true ∧ r.id.localTxId = r.transactionId ∧
    r.startTs ≠ 0 ∧ r.commitTs ≠ 0 ∧ 2 ≤ r.participants.length ∧ r.writes ≠ [] ∧
    ascending (-1) r.participants = true ∧ r.participantNode ∈ r.participants ∧
    (∀ w ∈ r.writes, validWrite w = true) ∧ (r.writes.map (·.itemId)).Nodup

/-- What the vote has in common with the others. -/
def metadata (r : PrepareRequest) : AllPreparedRequest where
  protocolVersion := r.protocolVersion
  identity := some r.id
  startTs := r.startTs
  commitTs := r.commitTs
  participants := r.participants

@[simp] theorem metadata_id (r : PrepareRequest) : (metadata r).id = r.id := rfl

/-! ## The registry -/

/-- `Context::State` -/
inductive ContextState where
  | PREPARING
  | PREPARED
  | APPLYING
  deriving DecidableEq, Repr

/-- A prepared transaction of a participant. -/
structure Context where
  request : PrepareRequest
  prepareLsn : Nat
  state : ContextState
  deriving DecidableEq, Repr

/-- The contexts of a participant. -/
structure Registry where
  heap : List Context
  contexts : TxnIdentity → Option Nat

namespace Registry

/-- No contexts. -/
def init : Registry := ⟨[], fun _ => none⟩

/-- `Begin`. Returns the context, if the request does not conflict with an earlier one, and whether
it is new. -/
def begin (g : Registry) (r : PrepareRequest) : Registry × Option Nat × Bool :=
  match g.contexts r.id with
  | none =>
    ({ heap := g.heap ++ [⟨r, 0, .PREPARING⟩]
       contexts := Function.update g.contexts r.id (some g.heap.length) },
      some g.heap.length, true)
  | some c => (g, if g.heap[c]?.map Context.request = some r then some c else none, false)

/-- The vote is durable. -/
def markPrepared (g : Registry) (c lsn : Nat) : Registry :=
  { g with heap := g.heap.modify c fun x => { x with prepareLsn := lsn, state := .PREPARED } }

/-- `TakeForCommit` up to the lock of the context. -/
def findForCommit (g : Registry) (r : CommitRequest) : Option Nat :=
  match g.contexts r.id with
  | none => none
  | some c =>
    match g.heap[c]? with
    | none => none
    | some x =>
      if x.request.transactionId ≠ r.transactionId ∨ x.request.startTs ≠ r.startTs ∨
          x.request.commitTs ≠ r.commitTs then none
      else some c

/-- The rest of `TakeForCommit`. Returns whether the context was prepared. -/
def takeForCommit (g : Registry) (c : Nat) : Outcome (Registry × Bool) :=
  match g.heap[c]? with
  | none => blocked
  | some x => do
    await (¬ (x.state = .PREPARING ∧ x.request.protocolVersion = kProtocolVersion))
    if x.state ≠ .PREPARED then return (g, false)
    else return ({ g with heap := g.heap.set c { x with state := .APPLYING } }, true)

/-- The context goes. -/
def erase (g : Registry) (c : Nat) : Registry :=
  match g.heap[c]? with
  | none => g
  | some x => { g with contexts := Function.update g.contexts x.request.id none }

end Registry

end TwoPC
