import HybridCloud.TwoPC.StorageNotified
import HybridCloud.TwoPC.Proofs.RegistryProofs

/-!
# Commit only after every durable vote

Storage notifies a coordinator when it has seen a durable vote with the transaction's metadata from
every participant (`AllVoted`). The fact travels with the notification to the waiter, with the
waiter to the Commit requests, and with these to the contexts that are applied.
-/

namespace TwoPC

open Outcome Function

/-- The votes that storage has for the transaction of `r`. -/
def Notifier.votesOf (st : Notifier) (r : PrepareRequest) : VoteSet :=
  (st.transactions r.id).getD ⟨metadata r, [], false⟩

/-- `tx` is `old` with the vote `r`. -/
structure VoteSet.Adds (old : VoteSet) (r : PrepareRequest) (tx : VoteSet) : Prop where
  request : old.metadata = TwoPC.metadata r
  same : tx.metadata = old.metadata ∧ tx.notified = old.notified
  votes : ∀ e ∈ tx.votes, e ∈ old.votes ∨ e = (r.participantNode, r)

/-- What `ObserveDurableBatch` does with one record. -/
inductive Notifier.Observed (st : Notifier) (r : PrepareRequest) :
    Notifier → Option AllPreparedRequest → Prop where
  /-- The record is of the other protocol, or the transaction is complete. -/
  | ignored : Observed st r st none
  /-- The vote is counted. -/
  | counted {tx : VoteSet} (opened : st.completed r.id = none) (adds : (st.votesOf r).Adds r tx) :
      Observed st r (st.setVotes r.id tx) none
  /-- It is the last one. -/
  | complete {tx : VoteSet} (opened : st.completed r.id = none) (adds : (st.votesOf r).Adds r tx)
      (first : tx.notified = false)
      (all : ∀ node ∈ tx.metadata.participants, (tx.votes.lookup node).isSome = true) :
      Observed st r (st.setVotes r.id { tx with notified := true }) (some tx.metadata)

variable {r : PrepareRequest}

theorem VoteSet.emplace_next {tx tx' : VoteSet} (h : tx.emplace r = .next tx')
    (hmeta : tx.metadata = TwoPC.metadata r) : tx.Adds r tx' := by
  unfold VoteSet.emplace at h
  split at h
  · obtain rfl := next.inj h
    refine ⟨hmeta, ⟨rfl, rfl⟩, fun e he => ?_⟩
    rcases List.mem_cons.1 he with rfl | he
    · exact .inr rfl
    · exact .inl he
  · simp only [bind_eq_next, cassert_eq_next, pure_def, next.injEq] at h
    obtain ⟨-, -, rfl⟩ := h
    exact ⟨hmeta, ⟨rfl, rfl⟩, fun e he => .inl he⟩

variable {note : Option AllPreparedRequest} {st : Notifier}

theorem Notifier.observe_next {st' : Notifier} (h : st.observe r = .next (st', note)) :
    st.Observed r st' note := by
  simp only [Notifier.observe, bind_eq_next, cassert_eq_next] at h
  obtain ⟨-, -, h⟩ := h
  split at h
  · simp only [bind_eq_next, cassert_eq_next] at h
    obtain ⟨-, -, h⟩ := h
    unfold Notifier.addVote at h
    split at h
    · simp only [bind_eq_next, cassert_eq_next, pure_def, next.injEq, Prod.mk.injEq] at h
      obtain ⟨-, -, rfl, rfl⟩ := h
      exact .ignored
    · rename_i hopen
      simp only [bind_eq_next, cassert_eq_next] at h
      obtain ⟨-, hmeta, tx, hadd, h⟩ := h
      have adds := VoteSet.emplace_next hadd hmeta
      split at h
      · obtain ⟨rfl, rfl⟩ := h
        exact .counted hopen adds
      · rename_i hfirst
        simp only [bind_eq_next, cassert_eq_next, pure_def, next.injEq, Prod.mk.injEq] at h
        obtain ⟨-, hall, rfl, rfl⟩ := h
        simp only [not_or, Bool.not_eq_true, ne_eq, not_not] at hfirst
        exact .complete hopen adds hfirst.1 hall
  · obtain ⟨rfl, rfl⟩ := h
    exact .ignored

theorem Notifier.setVotes_some {id k : TxnIdentity} {tx tx' : VoteSet}
    (h : (st.setVotes k tx).transactions id = some tx') :
    id = k ∧ tx = tx' ∨ id ≠ k ∧ st.transactions id = some tx' := by
  by_cases hid : id = k
  · subst hid
    exact .inl ⟨rfl, by simpa [Notifier.setVotes] using h⟩
  · exact .inr ⟨hid, by simpa [Notifier.setVotes, hid] using h⟩

theorem mem_of_lookup {α β : Type} [BEq α] [LawfulBEq α] {l : List (α × β)} {a : α} {b : β}
    (h : l.lookup a = some b) : (a, b) ∈ l := by
  induction l with
  | nil => cases h
  | cons e l ih =>
    obtain ⟨a', b'⟩ := e
    rw [List.lookup_cons] at h
    split at h
    · rename_i heq
      obtain rfl := Option.some.inj h
      rw [eq_of_beq heq]
      exact List.mem_cons_self
    · exact List.mem_cons_of_mem _ (ih h)

theorem Notifier.forget_some {ids : List TxnIdentity} {id : TxnIdentity} {m : AllPreparedRequest} :
    ∀ {completed : TxnIdentity → Option AllPreparedRequest},
      (Notifier.forget completed ids).1 id = some m → completed id = some m := by
  induction ids with
  | nil => exact fun h => h
  | cons k ids ih =>
    intro completed h
    unfold Notifier.forget at h
    split at h
    · have h' := ih h
      by_cases hid : id = k
      · subst hid
        simp at h'
      · simpa [hid] using h'
    · exact h

namespace StorageNotified

/-- `ObserveDurableBatch` has seen a vote with this metadata from every participant. -/
def AllVoted (s : State) (m : AllPreparedRequest) : Prop :=
  ∀ node ∈ m.participants, ∃ r ∈ s.observed, metadata r = m ∧ r.participantNode = node

/-- The transaction of a request was started with its metadata. -/
def Started (s : State) (r : PrepareRequest) : Prop := s.started r.id = some (metadata r)

/-- What holds of the votes. -/
structure VoteInv (s : State) : Prop where
  durable : s.observed ⊆ s.durable ∧ s.unobserved ⊆ s.durable
  votes : ∀ id tx, s.notifier.transactions id = some tx →
    ∀ e ∈ tx.votes, e.2 ∈ s.observed ∧ metadata e.2 = tx.metadata ∧ e.2.participantNode = e.1
  /-- A completed transaction is not open. -/
  exclusive : ∀ id, s.notifier.completed id ≠ none → s.notifier.transactions id = none
  notifications : ∀ m ∈ s.notifications, AllVoted s m

/-- How often storage has notified a coordinator. -/
structure CountInv (s : State) : Prop where
  le_one : ∀ id, s.notified id ≤ 1
  untracked : ∀ id, ¬ s.notifier.Tracked id → s.notified id = 0
  unnotified : ∀ id tx, s.notifier.transactions id = some tx → tx.notified = false →
    s.notified id = 0

/-- What holds of the coordinators. -/
structure CoordinatorInv (s : State) : Prop where
  waiters : ∀ id w, s.waiters id = some w →
    s.started id = some w.metadata ∧ (w.durable = true → AllVoted s w.metadata)
  prepares : ∀ r ∈ s.prepares, Started s r
  preparing : ∀ requests ∈ s.preparing, ∀ e ∈ requests, Started s e.2 ∧
    ∀ e' ∈ requests, metadata e'.2 = metadata e.2
  prepared : ∀ requests ∈ s.prepared, ∀ e ∈ requests, Started s e.2 ∧ AllVoted s (metadata e.2)
  commits : ∀ e ∈ s.commits, ∃ m, s.started e.2.id = some m ∧ AllVoted s m

/-- What holds of a participant. -/
structure ParticipantInv (s : State) (g : Registry) : Prop where
  entries : g.Entries
  contexts : ∀ (c : Nat) (x : Context), g.heap[c]? = some x → Started s x.request
  applying : ∀ (c : Nat) (x : Context), g.heap[c]? = some x → x.state = .APPLYING →
    AllVoted s (metadata x.request)

/-- A Commit handler has found a context that everyone has voted for. -/
def CommitInv (s : State) : Prop :=
  ∀ h ∈ s.commitHandlers, ∃ x : Context,
    (s.registries h.node).heap[h.context]? = some x ∧ AllVoted s (metadata x.request)

/-- All of it. -/
structure Inv (s : State) : Prop where
  votes : VoteInv s
  count : CountInv s
  coordinator : CoordinatorInv s
  participant : ∀ n, ParticipantInv s (s.registries n)
  commit : CommitInv s

/-- Records stay observed and transactions started. -/
structure Grows (s s' : State) : Prop where
  observed : s.observed ⊆ s'.observed
  started : ∀ {id m}, s.started id = some m → s'.started id = some m

variable {s s' : State} {m : AllPreparedRequest} {r : PrepareRequest} {g : Registry}

theorem AllVoted.mono (h : AllVoted s m) (grows : Grows s s') : AllVoted s' m := by
  intro node hnode
  obtain ⟨r, hr, hm, hn⟩ := h node hnode
  exact ⟨r, grows.observed hr, hm, hn⟩

theorem Started.mono (h : Started s r) (grows : Grows s s') : Started s' r := grows.started h

theorem ParticipantInv.mono (h : ParticipantInv s g) (grows : Grows s s') : ParticipantInv s' g where
  entries := h.entries
  contexts c x hx := (h.contexts c x hx).mono grows
  applying c x hx hs := (h.applying c x hx hs).mono grows

theorem CoordinatorInv.mono (h : CoordinatorInv s) (grows : Grows s s')
    (hw : s'.waiters = s.waiters) (hr : s'.prepares = s.prepares)
    (hp : s'.preparing = s.preparing) (hd : s'.prepared = s.prepared)
    (hc : s'.commits = s.commits) : CoordinatorInv s' where
  waiters id w hid := by
    rw [hw] at hid
    obtain ⟨hs, hv⟩ := h.waiters id w hid
    exact ⟨grows.started hs, fun hd => (hv hd).mono grows⟩
  prepares r hmem := (h.prepares r (hr ▸ hmem)).mono grows
  preparing q hq e he := by
    obtain ⟨hs, hsame⟩ := h.preparing q (hp ▸ hq) e he
    exact ⟨hs.mono grows, hsame⟩
  prepared q hq e he := by
    obtain ⟨hs, hv⟩ := h.prepared q (hd ▸ hq) e he
    exact ⟨hs.mono grows, hv.mono grows⟩
  commits e he := by
    obtain ⟨m, hm, hv⟩ := h.commits e (hc ▸ he)
    exact ⟨m, grows.started hm, hv.mono grows⟩

theorem ParticipantInv.same {g' : Registry} (h : ParticipantInv s g) (hs : g.SameRequests g')
    (happly : ∀ (c : Nat) (x' : Context), g'.heap[c]? = some x' → x'.state = .APPLYING →
      AllVoted s (metadata x'.request)) : ParticipantInv s g' where
  entries := h.entries.same hs
  contexts c x' hx' := by
    obtain ⟨x, hx, hreq⟩ := hs.back c x' hx'
    have := h.contexts c x hx
    rw [hreq]
    exact this
  applying := happly

/-- A record read from the log is counted as a vote. -/
theorem voteInv_observe (h : VoteInv s) (hr : r ∈ s.unobserved)
    (ho : s.notifier.Observed r st note) (hst : s'.notifier = st)
    (hobs : s'.observed = s.observed ++ [r]) (hun : s'.unobserved = s.unobserved.erase r)
    (hd : s'.durable = s.durable) (hnote : s'.notifications = s.notifications ++ note.toList) :
    VoteInv s' := by
  have hgrow : s.observed ⊆ s'.observed := by
    rw [hobs]
    exact List.subset_append_left _ _
  have hrmem : r ∈ s'.observed := by simp [hobs]
  have hold : ∀ m, AllVoted s m → AllVoted s' m := by
    intro m hm node hnode
    obtain ⟨v, hv, h1, h2⟩ := hm node hnode
    exact ⟨v, hgrow hv, h1, h2⟩
  -- the votes of a transaction after the new one has been added
  have hadds : ∀ {tx : VoteSet}, (s.notifier.votesOf r).Adds r tx → ∀ e ∈ tx.votes,
      e.2 ∈ s'.observed ∧ metadata e.2 = tx.metadata ∧ e.2.participantNode = e.1 := by
    intro tx adds e he
    rw [adds.same.1]
    rcases adds.votes e he with he | rfl
    · cases htx : s.notifier.transactions r.id with
      | none => simp [Notifier.votesOf, htx] at he
      | some old =>
        have hof : s.notifier.votesOf r = old := by simp [Notifier.votesOf, htx]
        rw [hof] at he ⊢
        obtain ⟨h1, h2, h3⟩ := h.votes r.id old htx e he
        exact ⟨hgrow h1, h2, h3⟩
    · exact ⟨hrmem, adds.request.symm, rfl⟩
  refine ⟨?_, ?_, ?_, ?_⟩
  · rw [hobs, hun, hd]
    refine ⟨fun v hv => ?_, fun v hv => h.durable.2 (List.mem_of_mem_erase hv)⟩
    rcases List.mem_append.1 hv with hv | hv
    · exact h.durable.1 hv
    · obtain rfl := List.mem_singleton.1 hv
      exact h.durable.2 hr
  · intro id tx htx e he
    rw [hst] at htx
    cases ho with
    | ignored =>
      obtain ⟨h1, h2, h3⟩ := h.votes id tx htx e he
      exact ⟨hgrow h1, h2, h3⟩
    | counted hopen adds | complete hopen adds =>
      rcases Notifier.setVotes_some htx with ⟨-, rfl⟩ | ⟨-, htx⟩
      · exact hadds adds e he
      · obtain ⟨h1, h2, h3⟩ := h.votes id tx htx e he
        exact ⟨hgrow h1, h2, h3⟩
  · intro id hid
    rw [hst] at hid ⊢
    have hopened : ∀ tx, s.notifier.completed r.id = none →
        (s.notifier.setVotes r.id tx).completed id ≠ none →
        (s.notifier.setVotes r.id tx).transactions id = none := by
      intro tx hopen hc
      have hne : id ≠ r.id := by
        rintro rfl
        exact hc hopen
      simp only [Notifier.setVotes, update_of_ne hne]
      exact h.exclusive id hc
    cases ho with
    | ignored => exact h.exclusive id hid
    | counted hopen | complete hopen => exact hopened _ hopen hid
  · intro m hm
    rw [hnote, List.mem_append] at hm
    rcases hm with hm | hm
    · exact hold m (h.notifications m hm)
    · cases ho with
      | ignored => cases hm
      | counted => cases hm
      | @complete tx hopen adds first all =>
        obtain rfl : m = tx.metadata := by simpa using hm
        intro node hnode
        obtain ⟨v, hv⟩ := Option.isSome_iff_exists.1 (all node hnode)
        exact ⟨v, hadds adds _ (mem_of_lookup hv)⟩

/-- The counts with one more notification. -/
def addNotification (notified : TxnIdentity → Nat) (note : Option AllPreparedRequest) :
    TxnIdentity → Nat :=
  match note with
  | none => notified
  | some m => update notified m.id (notified m.id + 1)

/-- A record read notifies its transaction at most once. -/
theorem countInv_observe (h : CountInv s) (ho : s.notifier.Observed r st note)
    (hst : s'.notifier = st)
    (hcount : s'.notified = State.recount st (addNotification s.notified note)) : CountInv s' := by
  -- an open transaction that has not been notified, and one that is new, have no notification
  have hzero : ∀ tx, (s.notifier.votesOf r).Adds r tx → s.notifier.completed r.id = none →
      tx.notified = false → s.notified r.id = 0 := by
    intro tx adds hopen hfirst
    cases htx : s.notifier.transactions r.id with
    | none =>
      refine h.untracked r.id ?_
      rintro (hne | hne)
      · exact hne htx
      · exact hne hopen
    | some old =>
      have hof : s.notifier.votesOf r = old := by simp [Notifier.votesOf, htx]
      rw [hof] at adds
      exact h.unnotified r.id old htx (adds.same.2 ▸ hfirst)
  have hrecount : ∀ f : TxnIdentity → Nat, (∀ id, f id ≤ 1) → ∀ id, State.recount st f id ≤ 1 := by
    intro f hf id
    unfold State.recount
    split
    · exact hf id
    · exact Nat.zero_le 1
  refine ⟨?_, ?_, ?_⟩
  · rw [hcount]
    refine hrecount _ fun id => ?_
    cases ho with
    | ignored => exact h.le_one id
    | counted => exact h.le_one id
    | @complete tx hopen adds first =>
      show update s.notified tx.metadata.id (s.notified tx.metadata.id + 1) id ≤ 1
      have hid : tx.metadata.id = r.id := by rw [adds.same.1, adds.request, metadata_id]
      rw [hid]
      by_cases hr : id = r.id
      · subst hr
        have hnone := hzero tx adds hopen first
        simp only [update_self]
        omega
      · rw [update_of_ne hr]
        exact h.le_one id
  · intro id hid
    rw [hcount, State.recount, if_neg (hst ▸ hid)]
  · intro id tx htx hn
    rw [hst] at htx
    rw [hcount, State.recount, if_pos (.inl (by rw [htx]; nofun))]
    cases ho with
    | ignored => exact h.unnotified id tx htx hn
    | @counted tx' hopen adds =>
      rcases Notifier.setVotes_some htx with ⟨rfl, rfl⟩ | ⟨-, htx⟩
      · exact hzero tx' adds hopen hn
      · exact h.unnotified id tx htx hn
    | @complete tx' hopen adds =>
      have hid' : tx'.metadata.id = r.id := by rw [adds.same.1, adds.request, metadata_id]
      rcases Notifier.setVotes_some htx with ⟨-, rfl⟩ | ⟨hid, htx⟩
      · cases hn
      · show update s.notified tx'.metadata.id _ id = 0
        rw [hid', update_of_ne hid]
        exact h.unnotified id tx htx hn

theorem notifyDone_transactions (st : Notifier) (m : AllPreparedRequest) :
    (st.notifyDone m).transactions = update st.transactions m.id none := rfl

theorem notifyDone_completed {id : TxnIdentity} (h : (st.notifyDone m).completed id ≠ none) :
    id = m.id ∨ st.completed id ≠ none := by
  obtain ⟨done, hdone⟩ := Option.ne_none_iff_exists'.1 h
  have hforget := Notifier.forget_some hdone
  by_cases hid : id = m.id
  · exact .inl hid
  · refine .inr ?_
    cases hold : st.completed m.id with
    | some old =>
      simp only [hold] at hforget
      rw [hforget]
      nofun
    | none =>
      simp only [hold, update_of_ne hid] at hforget
      rw [hforget]
      nofun

/-- An answered notification closes its transaction. -/
theorem voteInv_notifyDone (h : VoteInv s) (hst : s'.notifier = s.notifier.notifyDone m)
    (hobs : s'.observed = s.observed) (hd : s'.durable = s.durable)
    (hun : s'.unobserved = s.unobserved) (hnote : s'.notifications = s.notifications) :
    VoteInv s' := by
  have hvoted : ∀ m, AllVoted s m → AllVoted s' m := by
    intro m hm
    unfold AllVoted
    rw [hobs]
    exact hm
  refine ⟨?_, ?_, ?_, ?_⟩
  · rw [hobs, hun, hd]
    exact h.durable
  · intro id tx htx
    rw [hst, notifyDone_transactions] at htx
    rw [hobs]
    by_cases hid : id = m.id
    · subst hid
      simp at htx
    · rw [update_of_ne hid] at htx
      exact h.votes id tx htx
  · intro id hid
    rw [hst] at hid ⊢
    rw [notifyDone_transactions]
    by_cases heq : id = m.id
    · subst heq
      exact update_self ..
    · rw [update_of_ne heq]
      rcases notifyDone_completed hid with hm | hc
      · exact absurd hm heq
      · exact h.exclusive id hc
  · intro m hm
    rw [hnote] at hm
    exact hvoted m (h.notifications m hm)

theorem countInv_notifyDone (h : CountInv s) (hst : s'.notifier = s.notifier.notifyDone m)
    (hcount : s'.notified = State.recount s'.notifier s.notified) : CountInv s' := by
  refine ⟨?_, ?_, ?_⟩
  · intro id
    rw [hcount, State.recount]
    split
    · exact h.le_one id
    · exact Nat.zero_le 1
  · intro id hid
    rw [hcount, State.recount, if_neg hid]
  · intro id tx htx hn
    have htracked : s'.notifier.Tracked id := .inl (by rw [htx]; nofun)
    rw [hcount, State.recount, if_pos htracked]
    rw [hst, notifyDone_transactions] at htx
    by_cases hid : id = m.id
    · subst hid
      simp at htx
    · rw [update_of_ne hid] at htx
      exact h.unnotified id tx htx hn

theorem CommitInv.mono (h : CommitInv s) (grows : Grows s s')
    (hold : ∀ k ∈ s'.commitHandlers, ∃ k₀ ∈ s.commitHandlers,
      k₀.node = k.node ∧ k₀.context = k.context)
    (hkeep : ∀ n (c : Nat) (x : Context), (s.registries n).heap[c]? = some x →
      ∃ x' : Context, (s'.registries n).heap[c]? = some x' ∧ x'.request = x.request) :
    CommitInv s' := by
  intro k hk
  obtain ⟨k₀, hk₀, hn, hc⟩ := hold k hk
  obtain ⟨x, hx, hv⟩ := h k₀ hk₀
  rw [hn, hc] at hx
  obtain ⟨x', hx', hreq⟩ := hkeep _ _ x hx
  refine ⟨x', hx', ?_⟩
  rw [hreq]
  exact hv.mono grows

variable {n : Int}

theorem keeps_setRegistry
    (hg : ∀ (c : Nat) (x : Context), (s.registries n).heap[c]? = some x → ∃ x' : Context,
      g.heap[c]? = some x' ∧ x'.request = x.request) :
    ∀ k (c : Nat) (x : Context), (s.registries k).heap[c]? = some x →
      ∃ x' : Context, ((s.setRegistry n g).registries k).heap[c]? = some x' ∧
        x'.request = x.request := by
  intro k c x hx
  by_cases hk : k = n
  · subst hk
    simp only [State.setRegistry, update_self]
    exact hg c x hx
  · simp only [State.setRegistry, update_of_ne hk]
    exact ⟨x, hx, rfl⟩

theorem forall_setRegistry (h : ∀ k, ParticipantInv s (s.registries k)) (hg : ParticipantInv s g) :
    ∀ k, ParticipantInv s ((s.setRegistry n g).registries k) :=
  (forall_update_iff s.registries fun _ g => ParticipantInv s g).2 ⟨hg, fun k _ => h k⟩

variable {requests : Requests}

/-- A prepare call keeps the invariant. -/
theorem inv_prepare (h : Inv s) (hok : Allowed s (.prepare requests))
    (hs : s.prepare requests = .next s') : Inv s' := by
  unfold State.prepare at hs
  split at hs
  · cases hs
  · rename_i node first rest
    simp only [bind_eq_next, cassert_eq_next, pure_def, next.injEq] at hs
    obtain ⟨-, -, -, -, -, -, -, hsame, -, -, rfl⟩ := hs
    have hfree : s.started first.id = none := hok
    -- every request of the call has the identity of the first one
    have hid : ∀ e ∈ (node, first) :: rest, e.2.id = first.id := by
      intro e he
      rw [← metadata_id, (hsame e he).2.2.2, metadata_id]
    have grows : Grows s
        { s with started := update s.started first.id (some (metadata first)) } := by
      refine ⟨List.Subset.refl _, fun {id m} hm => ?_⟩
      have hne : id ≠ first.id := by
        rintro rfl
        rw [hfree] at hm
        cases hm
      simp only [update_of_ne hne]
      exact hm
    have hnew : ∀ e ∈ (node, first) :: rest,
        update s.started first.id (some (metadata first)) e.2.id =
          some (metadata e.2) := by
      intro e he
      rw [hid e he, update_self, (hsame e he).2.2.2]
    refine ⟨{ h.votes with }, { h.count with }, ⟨?_, ?_, ?_, ?_, ?_⟩,
      fun n => { (h.participant n).mono grows with }, h.commit⟩
    · intro id w hw
      by_cases heq : id = first.id
      · subst heq
        simp only [update_self, Option.some.injEq] at hw ⊢
        subst hw
        exact ⟨rfl, (by simp)⟩
      · simp only [update_of_ne heq] at hw ⊢
        exact h.coordinator.waiters id w hw
    · intro r hr
      rcases List.mem_append.1 hr with hr | hr
      · exact grows.started (h.coordinator.prepares r hr)
      · obtain ⟨e, he, rfl⟩ := List.mem_map.1 hr
        exact hnew e he
    · intro q hq e he
      rcases List.mem_cons.1 hq with rfl | hq
      · refine ⟨hnew e he, fun e' he' => ?_⟩
        rw [(hsame e' he').2.2.2, (hsame e he).2.2.2]
      · obtain ⟨hst, hm⟩ := h.coordinator.preparing q hq e he
        exact ⟨grows.started hst, hm⟩
    · intro q hq e he
      obtain ⟨hst, hv⟩ := h.coordinator.prepared q hq e he
      exact ⟨grows.started hst, hv⟩
    · intro e he
      obtain ⟨m, hm, hv⟩ := h.coordinator.commits e he
      exact ⟨m, grows.started hm, hv⟩

/-- The return of a prepare keeps it. -/
theorem inv_prepareReturn (h : Inv s) (hs : s.prepareReturn requests = .next s') : Inv s' := by
  simp only [State.prepareReturn, bind_eq_next, await_eq_next] at hs
  obtain ⟨-, hmem, hs⟩ := hs
  split at hs
  · cases hs
  · rename_i node first rest
    simp only [bind_eq_next, await_eq_next, pure_def, next.injEq] at hs
    obtain ⟨-, hdone, rfl⟩ := hs
    obtain ⟨w, hw, hdurable⟩ := Option.map_eq_some_iff.1 hdone
    obtain ⟨hstart, hvoted⟩ := h.coordinator.waiters _ w hw
    obtain ⟨hfirst, hsame⟩ := h.coordinator.preparing _ hmem (node, first) List.mem_cons_self
    -- the waiter has the metadata of the call's requests
    have hmeta : w.metadata = metadata first := Option.some.inj (hstart.symm.trans hfirst)
    refine ⟨{ h.votes with }, { h.count with },
      ⟨?_, h.coordinator.prepares, ?_, ?_, h.coordinator.commits⟩,
      fun n => { h.participant n with }, h.commit⟩
    · intro id w' hw'
      by_cases heq : id = first.id
      · subst heq
        simp at hw'
      · simp only [update_of_ne heq] at hw'
        exact h.coordinator.waiters id w' hw'
    · intro q hq
      exact h.coordinator.preparing q (List.mem_of_mem_erase hq)
    · intro q hq e he
      rcases List.mem_cons.1 hq with rfl | hq
      · refine ⟨(h.coordinator.preparing _ hmem e he).1, ?_⟩
        rw [hsame e he, ← hmeta]
        exact hvoted hdurable
      · exact h.coordinator.prepared q hq e he

theorem inv_commit (h : Inv s) (hs : s.commit requests = .next s') : Inv s' := by
  simp only [State.commit, bind_eq_next, await_eq_next, pure_def, next.injEq] at hs
  obtain ⟨-, hmem, rfl⟩ := hs
  have hc := h.coordinator
  refine ⟨{ h.votes with }, { h.count with },
    ⟨hc.waiters, hc.prepares, hc.preparing, hc.prepared, ?_⟩, fun n => { h.participant n with },
    h.commit⟩
  intro e he
  rcases List.mem_append.1 he with he | he
  · exact hc.commits e he
  · obtain ⟨q, hq, rfl⟩ := List.mem_map.1 he
    exact ⟨metadata q.2, hc.prepared _ hmem q hq⟩

/-- A notification reaches its coordinator. -/
theorem inv_deliverAllPrepared (h : Inv s) (hs : s.deliverAllPrepared m = .next s') : Inv s' := by
  simp only [State.deliverAllPrepared, bind_eq_next, await_eq_next, pure_def, next.injEq] at hs
  obtain ⟨-, hmem, rfl⟩ := hs
  have hc := h.coordinator
  have hkeep : ∀ {ws : TxnIdentity → Option Waiter} {calls}, (∀ id w, ws id = some w →
      s.started id = some w.metadata ∧ (w.durable = true → AllVoted s w.metadata)) →
      Inv { s with waiters := ws, calls := calls } := by
    intro ws calls hws
    exact ⟨{ h.votes with }, { h.count with }, { hc with waiters := hws },
      fun n => { h.participant n with }, h.commit⟩
  unfold State.accept
  split
  · exact hkeep hc.waiters
  · split
    · exact hkeep hc.waiters
    · rename_i w hw
      split
      · exact hkeep hc.waiters
      · rename_i hsame
        refine hkeep fun id w' hw' => ?_
        by_cases heq : id = m.id
        · subst heq
          simp only [update_self, Option.some.injEq] at hw'
          subst hw'
          refine ⟨(hc.waiters _ w hw).1, fun _ => ?_⟩
          rw [← not_not.1 hsame]
          exact h.votes.notifications m hmem
        · simp only [update_of_ne heq] at hw'
          exact hc.waiters id w' hw'

/-- Only a participant acts, and its contexts keep their requests. -/
theorem Inv.of_registry {k : List CommitHandler} (h : Inv s) (hg : ParticipantInv s g)
    (hkeep : ∀ (c : Nat) (x : Context), (s.registries n).heap[c]? = some x → ∃ x' : Context,
      g.heap[c]? = some x' ∧ x'.request = x.request)
    (hk : ∀ d ∈ k, ∃ d₀ ∈ s.commitHandlers, d₀.node = d.node ∧ d₀.context = d.context)
    (p : List PrepareHandler) :
    Inv { s.setRegistry n g with commitHandlers := k, prepareHandlers := p } where
  votes := { h.votes with }
  count := { h.count with }
  coordinator := { h.coordinator with }
  participant j := { forall_setRegistry h.participant hg j with }
  commit := h.commit.mono ⟨fun _ => id, id⟩ hk (keeps_setRegistry hkeep)

/-- A participant gets a prepare request. -/
theorem inv_deliverPrepare (h : Inv s) (hs : s.deliverPrepare r = .next s') : Inv s' := by
  simp only [State.deliverPrepare, bind_eq_next, await_eq_next] at hs
  obtain ⟨-, hmem, hs⟩ := hs
  have hb := Registry.begin_cases (s.registries r.participantNode) r
  generalize (s.registries r.participantNode).begin r = res at hs hb
  obtain ⟨g, oc, new⟩ := res
  have hp := h.participant r.participantNode
  cases hb with
  | made hfree =>
    simp only [pure_def, next.injEq] at hs
    subst hs
    refine h.of_registry ⟨hp.entries.made, fun c x hx => ?_, fun c x hx happly => ?_⟩
      (fun c x hx => ⟨x, ?_, rfl⟩) (fun d hd => ⟨d, hd, rfl, rfl⟩) _
    · rcases Registry.getElem?_made hx with hx | ⟨-, rfl⟩
      · exact hp.contexts c x hx
      · exact h.coordinator.prepares r hmem
    · rcases Registry.getElem?_made hx with hx | ⟨-, rfl⟩
      · exact hp.applying c x hx happly
      · cases happly
    · have hlt := (List.getElem?_eq_some_iff.1 hx).1
      rw [List.getElem?_append_left hlt]
      exact hx
  | found | conflict =>
    simp only [pure_def, next.injEq] at hs
    exact hs ▸ h

theorem participantInv_erase (h : ParticipantInv s g) (c : Nat) :
    ParticipantInv s (g.erase c) := by
  refine h.same (Registry.sameRequests_erase g c) fun d x hx happly => ?_
  rw [Registry.erase_heap] at hx
  exact h.applying d x hx happly

variable {p : PrepareHandler}

theorem inv_refuse (h : Inv s) (hs : s.refuse p = .next s') : Inv s' := by
  simp only [State.refuse, bind_eq_next, await_eq_next, pure_def, next.injEq] at hs
  obtain ⟨-, -, rfl⟩ := hs
  exact h.of_registry (participantInv_erase (h.participant p.node) p.context)
    (Registry.sameRequests_erase _ _).forth (fun d hd => ⟨d, hd, rfl, rfl⟩) _

/-- It puts its vote into the log. -/
theorem inv_logVote (h : Inv s) (hs : s.logVote p = .next s') : Inv s' := by
  simp only [State.logVote, bind_eq_next, await_eq_next] at hs
  obtain ⟨-, -, hs⟩ := hs
  split at hs
  · cases hs
  · simp only [pure_def, next.injEq] at hs
    subst hs
    exact ⟨{ h.votes with }, { h.count with }, { h.coordinator with },
      fun n => { h.participant n with }, h.commit⟩

theorem inv_markPrepared {lsn : Nat} (h : Inv s) (hs : s.markPrepared p lsn = .next s') :
    Inv s' := by
  simp only [State.markPrepared, bind_eq_next, await_eq_next] at hs
  obtain ⟨-, -, hs⟩ := hs
  split at hs
  · cases hs
  · simp only [bind_eq_next, await_eq_next, pure_def, next.injEq] at hs
    obtain ⟨-, -, rfl⟩ := hs
    have hp := h.participant p.node
    have hsame := Registry.sameRequests_markPrepared (s.registries p.node) p.context lsn
    refine h.of_registry (hp.same hsame fun d x' hx' happly => ?_) hsame.forth
      (fun d hd => ⟨d, hd, rfl, rfl⟩) _
    rw [Registry.markPrepared_getElem?] at hx'
    obtain ⟨x, hx, rfl⟩ := Option.map_eq_some_iff.1 hx'
    split at happly
    · cases happly
    · rename_i hne
      rw [if_neg hne]
      exact hp.applying d x hx happly

theorem inv_deliverCommit {q : CommitRequest} (h : Inv s) (hs : s.deliverCommit n q = .next s') :
    Inv s' := by
  simp only [State.deliverCommit, bind_eq_next, await_eq_next] at hs
  obtain ⟨-, hmem, hs⟩ := hs
  split at hs
  · simp only [pure_def, next.injEq] at hs
    exact hs ▸ h
  · rename_i c hfind
    simp only [pure_def, next.injEq] at hs
    subst hs
    refine ⟨{ h.votes with }, { h.count with }, { h.coordinator with },
      fun n => { h.participant n with }, ?_⟩
    obtain ⟨x, hentry, hx, -⟩ := Registry.findForCommit_some hfind
    obtain ⟨y, hy, hid⟩ := (h.participant n).entries _ _ hentry
    obtain rfl : x = y := Option.some.inj (hx.symm.trans hy)
    obtain ⟨m, hm, hv⟩ := h.coordinator.commits _ hmem
    -- the coordinator and the participant have the same metadata for the identity
    have hstart : s.started q.id = some (metadata x.request) := hid ▸ (h.participant n).contexts c x hx
    obtain rfl : m = metadata x.request := Option.some.inj (hm.symm.trans hstart)
    intro k hk
    rcases List.mem_cons.1 hk with rfl | hk
    · exact ⟨x, hx, hv⟩
    · exact h.commit k hk

variable {k : CommitHandler}

/-- A commit takes the prepared context. -/
theorem inv_takeForCommit (h : Inv s) (hs : s.takeForCommit k = .next s') : Inv s' := by
  simp only [State.takeForCommit, bind_eq_next, await_eq_next, pure_def, next.injEq] at hs
  obtain ⟨-, ⟨hmem, -⟩, ⟨g, taken⟩, htake, rfl⟩ := hs
  obtain ⟨x, hx, htaken⟩ := Registry.takeForCommit_next htake
  obtain ⟨y, hy, hv⟩ := h.commit k hmem
  obtain rfl : x = y := Option.some.inj (hx.symm.trans hy)
  have hp := h.participant k.node
  cases htaken with
  | prepared hstate =>
    have hsame := Registry.sameRequests_set hx .APPLYING
    have hlt := (List.getElem?_eq_some_iff.1 hx).1
    refine h.of_registry (hp.same hsame fun d x' hx' happly => ?_) hsame.forth ?_ _
    · by_cases hd : k.context = d
      · subst hd
        rw [List.getElem?_set_self hlt] at hx'
        obtain rfl := Option.some.inj hx'
        exact hv
      · rw [List.getElem?_set_ne hd] at hx'
        exact hp.applying d x' hx' happly
    · intro d hd
      rcases List.mem_cons.1 hd with rfl | hd
      · exact ⟨k, hmem, rfl, rfl⟩
      · exact ⟨d, List.mem_of_mem_erase hd, rfl, rfl⟩
  | other =>
    exact h.of_registry hp (fun c x hx => ⟨x, hx, rfl⟩)
      (fun d hd => ⟨d, List.mem_of_mem_erase hd, rfl, rfl⟩) _

theorem inv_commitDone (h : Inv s) (hs : s.commitDone k = .next s') : Inv s' := by
  simp only [State.commitDone, bind_eq_next, await_eq_next, pure_def, next.injEq] at hs
  obtain ⟨-, -, rfl⟩ := hs
  exact h.of_registry (participantInv_erase (h.participant k.node) k.context)
    (Registry.sameRequests_erase _ _).forth
    (fun d hd => ⟨d, List.mem_of_mem_erase hd, rfl, rfl⟩) _

/-- Storage makes a batch of votes durable. -/
theorem inv_logWrite {batch : List PrepareRequest} (h : Inv s)
    (hs : s.logWrite batch = .next s') : Inv s' := by
  simp only [State.logWrite, bind_eq_next, await_eq_next, pure_def, next.injEq] at hs
  obtain ⟨-, -, rfl⟩ := hs
  refine ⟨⟨⟨?_, ?_⟩, h.votes.votes, h.votes.exclusive, h.votes.notifications⟩,
    { h.count with }, { h.coordinator with }, fun n => { h.participant n with }, h.commit⟩
  · exact fun r hr => List.mem_append_left _ (h.votes.durable.1 hr)
  · intro r hr
    rcases List.mem_append.1 hr with hr | hr
    · exact List.mem_append_left _ (h.votes.durable.2 hr)
    · exact List.mem_append_right _ hr

theorem inv_observe (h : Inv s) (hs : s.observe r = .next s') : Inv s' := by
  simp only [State.observe, bind_eq_next, await_eq_next] at hs
  obtain ⟨-, hmem, ⟨st, note⟩, hobs, hs⟩ := hs
  have ho := Notifier.observe_next hobs
  have grows : s.observed ⊆ s.observed ++ [r] := List.subset_append_left _ _
  cases note with
  | none | some m =>
    simp only [pure_def, next.injEq] at hs
    subst hs
    exact ⟨voteInv_observe h.votes hmem ho rfl rfl rfl rfl (by simp),
      countInv_observe h.count ho rfl rfl,
      h.coordinator.mono ⟨grows, id⟩ rfl rfl rfl rfl rfl,
      fun j => (h.participant j).mono ⟨grows, id⟩,
      h.commit.mono ⟨grows, id⟩ (fun k hk => ⟨k, hk, rfl, rfl⟩) fun n c x hx => ⟨x, hx, rfl⟩⟩

theorem inv_notifyDone {ok : Bool} (h : Inv s) (hs : s.notifyDone m ok = .next s') : Inv s' := by
  simp only [State.notifyDone, bind_eq_next, await_eq_next, cassert_eq_next, pure_def,
    next.injEq] at hs
  obtain ⟨-, -, -, -, rfl⟩ := hs
  exact ⟨voteInv_notifyDone h.votes rfl rfl rfl rfl rfl, countInv_notifyDone h.count rfl rfl,
    { h.coordinator with }, fun n => { h.participant n with }, h.commit⟩

theorem inv_init (channels : Nat) : Inv (.init channels) where
  votes := ⟨⟨nofun, nofun⟩, nofun, fun _ h => absurd rfl h, nofun⟩
  count := ⟨fun _ => Nat.zero_le 1, fun _ _ => rfl, nofun⟩
  coordinator := ⟨nofun, nofun, nofun, nofun, nofun⟩
  participant _ := ⟨Registry.entries_init, nofun, nofun⟩
  commit := nofun

/-- Every step keeps the invariant. -/
theorem inv_step {a : Action} (h : Inv s) (hok : Allowed s a) (hs : step s a = .next s') :
    Inv s' := by
  cases a with
  | prepare requests => exact inv_prepare h hok hs
  | prepareReturn requests => exact inv_prepareReturn h hs
  | commit requests => exact inv_commit h hs
  | deliverPrepare r => exact inv_deliverPrepare h hs
  | refuse p => exact inv_refuse h hs
  | logVote p => exact inv_logVote h hs
  | markPrepared p lsn => exact inv_markPrepared h hs
  | deliverCommit n q => exact inv_deliverCommit h hs
  | takeForCommit k => exact inv_takeForCommit h hs
  | commitDone k => exact inv_commitDone h hs
  | logWrite batch => exact inv_logWrite h hs
  | observe r => exact inv_observe h hs
  | deliverAllPrepared m => exact inv_deliverAllPrepared h hs
  | notifyDone m ok => exact inv_notifyDone h hs

variable {channels : Nat}

theorem run_inv (run : Run step Allowed (.init channels) s) : Inv s :=
  run.invariant (inv_init channels) inv_step

/-- `Prepare` returns only after storage has seen a durable vote with the same metadata from every
participant; a participant applies a transaction only after the votes of all are durable; storage
notifies a coordinator at most once about a transaction that it knows. -/
theorem commit_after_all_durable (run : Run step Allowed (.init channels) s) :
    (∀ requests ∈ s.prepared, ∀ e ∈ requests, ∀ node ∈ e.2.participants,
      ∃ r ∈ s.observed, r ∈ s.durable ∧ metadata r = metadata e.2 ∧ r.participantNode = node) ∧
    (∀ n, ∀ x ∈ (s.registries n).heap, x.state = .APPLYING → ∀ node ∈ x.request.participants,
      ∃ r ∈ s.durable, metadata r = metadata x.request ∧ r.participantNode = node) ∧
    (∀ id, s.notified id ≤ 1) := by
  have h := run_inv run
  refine ⟨fun requests hq e he node hnode => ?_, fun n x hx happly node hnode => ?_,
    h.count.le_one⟩
  · obtain ⟨r, hr, hm, hn⟩ := (h.coordinator.prepared requests hq e he).2 node hnode
    exact ⟨r, hr, h.votes.durable.1 hr, hm, hn⟩
  · obtain ⟨c, hc⟩ := List.mem_iff_getElem?.1 hx
    obtain ⟨r, hr, hm, hn⟩ := (h.participant n).applying c x hc happly node hnode
    exact ⟨r, h.votes.durable.1 hr, hm, hn⟩

/-- A transaction of node 0, prepared at `node`, with one write there. -/
def transfer (node : Int) : PrepareRequest where
  transactionId := 7
  protocolVersion := kProtocolVersion
  identity := some ⟨0, List.replicate 16 1, 7⟩
  startTs := 100
  commitTs := 101
  participants := [1, 2]
  participantNode := node
  writes := [⟨some ⟨0, 1, node⟩, "account", 5, .UPDATE, [42]⟩]

/-- Node 1 is told to commit before node 2 has marked its context; one record is logged twice. -/
def transferRun : List Action :=
  [.prepare [(1, transfer 1), (2, transfer 2)],
    .deliverPrepare (transfer 1), .deliverPrepare (transfer 2), .deliverPrepare (transfer 1),
    .logVote ⟨1, 0, false⟩, .logVote ⟨2, 0, false⟩, .logWrite [transfer 2],
    .observe (transfer 2), .logWrite [transfer 2, transfer 1], .observe (transfer 1),
    .observe (transfer 2), .markPrepared ⟨1, 0, true⟩ 8,
    .deliverAllPrepared (metadata (transfer 1)),
    .prepareReturn [(1, transfer 1), (2, transfer 2)],
    .notifyDone (metadata (transfer 1)) true,
    .commit [(1, transfer 1), (2, transfer 2)],
    .deliverCommit 1 ⟨7, (transfer 1).identity, 100, 101⟩, .takeForCommit ⟨1, 0, false⟩]

theorem commit_after_all_durable_transfer :
    ∃ s, Run step Allowed (.init 3) s ∧ [(1, transfer 1), (2, transfer 2)] ∈ s.prepared ∧
      (∃ x ∈ (s.registries 1).heap, x.state = .APPLYING) ∧
      s.notified (transfer 1).id = 1 ∧
      (∀ n, ∀ x ∈ (s.registries n).heap, x.state = .APPLYING → ∀ node ∈ x.request.participants,
        ∃ r ∈ s.durable, metadata r = metadata x.request ∧ r.participantNode = node) := by
  obtain ⟨s, run, hs⟩ := Run.of_reaches step Allowed transferRun (.init 3)
    (fun s => decide ([(1, transfer 1), (2, transfer 2)] ∈ s.prepared ∧
      (∃ x ∈ (s.registries 1).heap, x.state = .APPLYING) ∧ s.notified (transfer 1).id = 1))
    (by decide +kernel)
  obtain ⟨h1, h2, h3⟩ := of_decide_eq_true hs
  exact ⟨s, run, h1, h2, h3, (commit_after_all_durable run).2.1⟩

end StorageNotified

end TwoPC
