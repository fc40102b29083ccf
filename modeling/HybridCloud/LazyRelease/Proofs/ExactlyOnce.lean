import HybridCloud.LazyRelease.Proofs.PushBalance

/-!
# A page is pushed exactly once per grant

As long as no eviction loses its victim, every node gets exactly the pushes it is entitled to. An
eviction that has lost its victim breaks this: it unlocks the mutex of a Pending handler, two
releases run at the same time, and both push the page to `dest_node_id`.
-/

namespace LazyRelease

open GPLM Outcome

variable {N : Nat} {α : Type} {s s' : State N α} {n d : NodeId N} {nd nd' : Node N α}
  {a b : AbsDirectory N}

/-- The fetch has asked the directory and has not taken the page yet. -/
def Fetch.awaits (f : Fetch N) : Bool :=
  match f.stage with
  | .asking | .notifying _ | .answered .waitLockRelease | .answered (.pushFrom _) => true
  | _ => false

/-- Until the fetching thread takes it, a page that arrived is one that is noticed or about to be. -/
def ReceivedInv (nd : Node N α) : Prop :=
  ∀ f ∈ nd.fetches, f.awaits = true → nd.received = nd.arrived + nd.lk.updateSuccess.toNat

namespace ReceivedInv

theorem congr (h : ReceivedInv nd) (hf : nd'.fetches = nd.fetches)
    (hr : nd'.received = nd.received) (ha : nd'.arrived = nd.arrived)
    (hu : nd'.lk.updateSuccess = nd.lk.updateSuccess) : ReceivedInv nd' := by
  intro f hmem hawaits
  rw [hr, ha, hu]
  exact h f (hf ▸ hmem) hawaits

theorem of_awaits (h : ReceivedInv nd) {f : Fetch N} (mem : f ∈ nd.fetches)
    (hf : f.awaits = true) (hr : nd'.received = nd.received) (ha : nd'.arrived = nd.arrived)
    (hu : nd'.lk.updateSuccess = nd.lk.updateSuccess) : ReceivedInv nd' := by
  intro g hmem hawaits
  rw [hr, ha, hu]
  exact h f mem hf

theorem of_not_awaits {f : Fetch N} (hf : nd.fetches = [f]) (h : f.awaits = false) :
    ReceivedInv nd := by
  intro g hmem hawaits
  rw [hf, List.mem_singleton] at hmem
  rw [hmem, h] at hawaits
  cases hawaits

end ReceivedInv

/-- Pages and duties to push them are accounted for on every node. -/
structure PushInv (s : State N α) : Prop where
  deferred : Deferred s
  balanced : Balanced s
  received : ∀ n, ReceivedInv (s.nodes n)

theorem receivedInv_setNode (h : ∀ k, ReceivedInv (s.nodes k)) (hnd : ReceivedInv nd)
    (k : NodeId N) : ReceivedInv ((s.setNode n nd).nodes k) :=
  forall_setNode (P := fun _ nd => ReceivedInv nd) h hnd k

theorem receivedInv_pushed (h : ∀ k, ReceivedInv (s.nodes k)) (d : NodeId N) (page : Page α)
    (k : NodeId N) : ReceivedInv ((s.pushed d page).nodes k) := by
  have hd : ReceivedInv { s.nodes d with pushes := (s.nodes d).pushes ++ [page] } :=
    h d
  exact receivedInv_setNode h hd k

theorem receivedInv_sent (h : ∀ k, ReceivedInv (s.nodes k)) (n : NodeId N)
    (dest : Option (NodeId N)) (k : NodeId N) : ReceivedInv ((s.sent n dest).nodes k) :=
  forall_sent (P := fun _ nd => ReceivedInv nd) h (fun d _ _ _ => h d) k

theorem awaits_of_stage {f : Fetch N} {stage : FetchStage N} (h : f.stage = stage) :
    f.awaits = Fetch.awaits ⟨f.x, stage⟩ := by
  simp only [Fetch.awaits, h]

theorem PushInv.received_step [DecidableEq α] (h : PushInv s) (hlock : LockInv s)
    {act : Action N α} (hs : Step s act s') : ∀ k, ReceivedInv (s'.nodes k) := by
  have hr := h.received
  -- an idle node has nothing on its way to it
  have hidle : ∀ {n}, (s.nodes n).lk.isGranting = false →
      (s.nodes n).arrived = 0 ∧ (s.nodes n).lk.updateSuccess = false ∧ (s.nodes n).fetches = [] := by
    intro n hg
    have hi := (hlock.node n).idle hg
    have hn := h.balanced n
    rw [owed_of_nil hi.fetches, Node.inbound] at hn
    exact ⟨by omega, Bool.toNat_eq_zero.1 (by omega), hi.fetches⟩
  cases hs with
  | lockLocalS | lockLocalX | write | writeUnlogged | releaseS | releaseX | releaseKeep
  | pendingKeep | unlockReturn | lockSuccess | beginEvict | evictLost | evictNone | evictAsk
  | evictReplace | evictDone | endEvict =>
    exact receivedInv_setNode hr (hr _)
  | @lockAskS n quiet | @lockAskX n quiet =>
    obtain ⟨ha, hu, -⟩ := hidle quiet.not_granting
    refine receivedInv_setNode hr fun f _ _ => ?_
    simp [ha, hu]
  | @dirLock n f d msgs reply mem stage =>
    intro k
    have hn : ReceivedInv ((s.nodes n).setStage f (State.stageAfter reply)) :=
      (hr n).of_awaits mem (by rw [awaits_of_stage stage]; rfl) rfl rfl rfl
    exact receivedInv_setNode hr hn k
  | notifyPush mem stage =>
    refine fun k => receivedInv_setNode hr ?_ k
    exact (hr _).of_awaits mem (by rw [awaits_of_stage stage]; rfl) rfl rfl rfl
  | readStorage mem | gotPush mem | gotLock mem | takePushList mem =>
    exact receivedInv_setNode hr (.of_not_awaits ((hlock.node _).setStage_fetches mem _) rfl)
  | @pushNext n d f pushList page mem =>
    exact receivedInv_setNode (receivedInv_pushed hr d page)
      (.of_not_awaits ((hlock.node n).setStage_fetches mem _) rfl)
  | @fetchDone n f mem =>
    obtain ⟨ha, -⟩ := (hlock.node n).fetch_of_mem mem
    refine receivedInv_setNode hr fun g hg => ?_
    simp [ha.fetches] at hg
  | releasePush | pendingGive =>
    exact receivedInv_setNode (receivedInv_sent hr _ _) (hr _)
  | @releaseEnd n r b | @releaseUnlock n r b =>
    exact receivedInv_setNode hr ((hr n).congr rfl rfl rfl (unlock_frame r b _).2.1)
  | pending _ _ _ _ case =>
    exact receivedInv_setNode hr ((hr _).congr rfl rfl rfl (pendingCase_frame case).2.2.1)
  | @dirUnlock n u d msgs =>
    intro k
    have hn : ReceivedInv { s.nodes n with
        unlocks := { u with served := true } :: (s.nodes n).unlocks.erase u } :=
      hr n
    exact receivedInv_setNode hr hn k
  | @pushArrive n page =>
    refine receivedInv_setNode hr fun f hf hawaits => ?_
    have := hr n f hf hawaits
    simp only
    omega
  | @pushNotify n pos =>
    refine receivedInv_setNode hr fun f hf hawaits => ?_
    have := hr n f hf hawaits
    rw [h.balanced.not_updated_of_arrived hlock pos] at this
    simp only [Bool.toNat_true, Bool.toNat_false] at this ⊢
    omega
  | @dirEvict n lsn d agree =>
    have hn : ReceivedInv { s.nodes n with
        evicts := (if agree then .agreed else .ending) :: (s.nodes n).evicts.erase (.asking lsn) } :=
      hr n
    exact receivedInv_setNode hr hn

theorem PushInv.step [DecidableEq α] (hN : N < EXCLUSIVE_LOCKED) (h : PushInv s)
    (hlock : LockInv s) (hm : Disciplined s) {act : Action N α} (hs : Step s act s') :
    PushInv s' :=
  ⟨h.deferred.step hlock hm hs, h.balanced.step hN hlock hm h.deferred hs, h.received_step hlock hs⟩

theorem pushInv_init (base : Page α) : PushInv (State.init base : State N α) := by
  have hdest : DestInv (Node.init : Node N α) := by
    refine ⟨by rintro _ ⟨⟩, by rintro _ ⟨⟩, by rintro _ ⟨⟩, ?_, ?_⟩ <;>
      simp [Node.init, LRLocalPageLock.init]
  refine ⟨fun _ => hdest, fun n => ?_, by rintro _ _ ⟨⟩⟩
  have hduty : (State.init base : State N α).duty n = 0 := Finset.sum_eq_zero fun m _ => by
    simp [State.init, Node.init, LRLocalPageLock.init, Node.outbound, Node.defers]
  rw [hduty]
  rfl

variable [DecidableEq α] {base : Page α} {allowed : State N α → Action N α → Prop}

theorem pushInv_of_run (hN : N < EXCLUSIVE_LOCKED) (hallowed : ∀ s a, allowed s a → a.KeepsVictim)
    (run : Run State.step allowed (State.init base) s) : PushInv s :=
  run.invariant_under (Q := fun s => LockInv s ∧ Disciplined s)
    (fun run => ⟨lockInv_of_run hN run, disciplined_of_run hallowed run⟩) (pushInv_init base)
    fun hq _ h _ taken => h.step hN hq.1 hq.2 (step_cases taken)

/-- What the pushes to node `n` look like. `received` pushes have arrived since the node asked the
directory, `pushes` are on their way, and `duty` counts those that somebody still has to make. -/
structure ExactlyOnce (s : State N α) (n : NodeId N) : Prop where
  /-- A LockSuccess request is on its way: one push if `is_newest` is not set, else none. -/
  granted : ∀ g ∈ (s.nodes n).grants,
    (s.nodes n).received + (s.nodes n).pushes.length + s.duty n = if g.isNewest then 0 else 1
  /-- The LockSuccess request has arrived. -/
  notified : (∃ f ∈ (s.nodes n).fetches, f.stage = .answered .waitLockRelease) →
    (s.nodes n).lk.successReturn = true →
      (s.nodes n).received + (s.nodes n).pushes.length + s.duty n = (s.nodes n).lk.needWait.toNat
  /-- A push comes only while a thread waits for it. -/
  wanted : 0 < (s.nodes n).pushes.length + (s.nodes n).arrived + s.duty n →
    (s.nodes n).lk.isGranting = true ∧ (s.nodes n).lk.updateSuccess = false
  /-- Once the fetching thread has got what it asked for, nothing more comes. -/
  settled : (∀ f ∈ (s.nodes n).fetches, f.awaits = false) →
    (s.nodes n).pushes = [] ∧ (s.nodes n).arrived = 0 ∧ (s.nodes n).lk.updateSuccess = false ∧
      s.duty n = 0
  /-- A thread waits for a page only as long as there is a push on its way or still to be made. -/
  coming : (∃ f ∈ (s.nodes n).fetches, f.stage = .answered .waitLockRelease) →
    (s.nodes n).lk.successReturn = true → (s.nodes n).lk.needWait = true →
      (s.nodes n).lk.updateSuccess = false →
        (s.nodes n).pushes.length + (s.nodes n).arrived + s.duty n = 1
  /-- A push that was left to a release has a release to come. -/
  deferred : (s.nodes n).lk.destNodeId ≠ none →
    (s.nodes n).lk.isPending = true ∧ (s.nodes n).lk.lock ≠ 0

omit [DecidableEq α] in
theorem owed_of_not_awaits (h : ∀ f ∈ nd.fetches, f.awaits = false) : nd.owed a n = 0 := by
  refine List.sum_eq_zero fun k hk => ?_
  obtain ⟨f, hf, rfl⟩ := List.mem_map.1 hk
  have hf := h f hf
  unfold Fetch.awaits at hf
  unfold Fetch.owed
  split <;> simp_all

omit [DecidableEq α] in
theorem PushInv.exactlyOnce (h : PushInv s) (hlock : LockInv s) (n : NodeId N) :
    ExactlyOnce s n := by
  have hn := h.balanced n
  have hle := (hlock.node n).owed_le_one
  have hnot : ∀ {f : Fetch N}, (s.nodes n).fetches = [f] →
      f.stage = .answered .waitLockRelease → (s.nodes n).notifying = 0 := by
    intro f hf hst
    have hfalse : f.notifies = false := by rw [notifies_of_stage hst]; rfl
    simp [Node.notifying, hf, hfalse]
  have hrec : ∀ {f : Fetch N}, f ∈ (s.nodes n).fetches → f.stage = .answered .waitLockRelease →
      (s.nodes n).received = (s.nodes n).arrived + (s.nodes n).lk.updateSuccess.toNat :=
    fun hf hst => h.received n _ hf (by rw [awaits_of_stage hst]; rfl)
  have hnotified : (∃ f ∈ (s.nodes n).fetches, f.stage = .answered .waitLockRelease) →
      (s.nodes n).lk.successReturn = true → (s.nodes n).inbound + s.duty n =
        (s.nodes n).lk.needWait.toNat ∧ (s.nodes n).notifying = 0 ∧ (s.nodes n).received =
          (s.nodes n).arrived + (s.nodes n).lk.updateSuccess.toNat := by
    rintro ⟨f, hf, hst⟩ hs
    obtain ⟨ha, -⟩ := (hlock.node n).fetch_of_mem hf
    rw [((hlock.node n).owed_of_success hf hst hs).1] at hn
    exact ⟨hn, hnot ha.fetches hst, hrec hf hst⟩
  refine ⟨fun g hg => ?_, fun hf hs => ?_, fun hpos => ?_, fun hall => ?_,
    fun hf hs hw hu => ?_, fun hd => ?_⟩
  · obtain ⟨f, hf, hst, -, -, -, howed⟩ := (hlock.node n).owed_of_grant hg
    rw [howed, Node.inbound, hnot hf hst] at hn
    have hr := hrec (by simp [hf]) hst
    cases hnew : g.isNewest <;>
      simp only [hnew, Bool.not_true, Bool.not_false, Bool.toNat_true, Bool.toNat_false, if_true,
        Bool.false_eq_true, if_false] at hn ⊢ <;> omega
  · obtain ⟨hin, hno, hr⟩ := hnotified hf hs
    rw [Node.inbound, hno] at hin
    omega
  · rw [Node.inbound] at hn
    refine ⟨?_, ?_⟩
    · cases hg : (s.nodes n).lk.isGranting with
      | true => rfl
      | false =>
        have hi := (hlock.node n).idle hg
        rw [owed_of_nil hi.fetches] at hn
        omega
    · exact Bool.toNat_eq_zero.1 (by omega)
  · rw [owed_of_not_awaits hall, Node.inbound] at hn
    exact ⟨List.length_eq_zero_iff.1 (by omega), by omega, Bool.toNat_eq_zero.1 (by omega),
      by omega⟩
  · obtain ⟨hin, hno, -⟩ := hnotified hf hs
    rw [Node.inbound, hno, hu, hw, Bool.toNat_false, Bool.toNat_true] at hin
    omega
  · have hp := (h.deferred n).dest_pending hd
    exact ⟨hp, (h.deferred n).pending_used hp⟩

/-- In every run in which no eviction loses its victim, the page is pushed exactly once for a grant
whose LockSuccess request has `is_newest` unset, and not at all for the others. So
`RemotePushPageSuccess` is called only while the node asks the directory, and the assertion of
`TryRemoteLockSuccess` holds. -/
theorem page_pushed_exactly_once (hN : N < EXCLUSIVE_LOCKED)
    (run : Run State.step (fun _ a => a.KeepsVictim) (State.init base) s) (n : NodeId N) :
    ExactlyOnce s n ∧ s.pushNotify n ≠ .abort ∧ ∀ f, s.gotLock n f ≠ .abort := by
  have hlock := lockInv_of_run hN run
  have h := pushInv_of_run hN (fun _ _ ok => ok) run
  have honce := h.exactlyOnce hlock n
  refine ⟨honce, fun habort => ?_, fun f habort => ?_⟩
  · simp only [State.pushNotify, bind_eq_abort, await_ne_abort, await_eq_next, pure_def, reduceCtorEq,
      and_false, exists_false, or_false, false_or] at habort
    obtain ⟨-, hpos, hstop⟩ := habort
    have hg := LRLocalPageLock.remotePushPageSuccess_abort hstop
    simp [(honce.wanted (by omega)).1] at hg
  · simp only [State.gotLock, bind_eq_abort, await_ne_abort, await_eq_next, pure_def, reduceCtorEq,
      and_false, exists_false, or_false, false_or] at habort
    obtain ⟨-, ⟨hf, hst⟩, hstop⟩ := habort
    obtain ⟨ha, -⟩ := (hlock.node n).fetch_of_mem hf
    rcases LRLocalPageLock.tryRemoteLockSuccess_abort hstop with hg | ⟨hs, hw, hu⟩
    · simp [ha.granting] at hg
    · have hnone := honce.notified ⟨f, hf, hst⟩ hs
      have hr := h.received n f hf (by rw [awaits_of_stage hst]; rfl)
      rw [hw, Bool.toNat_false] at hnone
      rw [hu, Bool.toNat_true] at hr
      omega

/-- Node 0 writes the page and keeps it; node 1 asks for it, and node 0 hands it on. -/
def handedOnRun : List (Action 2 Nat) :=
  [.lock 0 true, .dirLock 0 ⟨true, .asking⟩,
    .readStorage 0 ⟨true, .answered (.storageFetch 0)⟩ 0, .fetchDone 0 ⟨true, .pushing []⟩,
    .write 0 (· + 1) 5, .release 0 true, .releasePush 0 ⟨true, 0, none⟩,
    .releaseFinish 0 ⟨true, 0, some false⟩, .lock 1 true, .dirLock 1 ⟨true, .asking⟩,
    .pending 0 ⟨true, some 1⟩, .pendingFinish 0 ⟨2, some 1⟩, .dirUnlock 0 ⟨false, false⟩]

/-- Node 1 has been granted the page that node 0 wrote and is told so; the push is on its way. -/
theorem page_pushed_exactly_once_to_writer :
    ∃ s : State 2 Nat, (s.nodes 1).grants = [⟨true, false, []⟩] ∧
      (s.nodes 1).received + (s.nodes 1).pushes.length + s.duty 1 = 1 := by
  obtain ⟨s, run, hs⟩ := Run.of_reaches State.step (fun _ a => a.KeepsVictim) handedOnRun
    (State.init ⟨0, 0⟩) (fun s => decide ((s.nodes 1).grants = [⟨true, false, []⟩]))
    (by decide +kernel)
  have hgrants := of_decide_eq_true hs
  refine ⟨s, hgrants, ?_⟩
  exact (page_pushed_exactly_once (by decide) run 1).1.granted ⟨true, false, []⟩ (by simp [hgrants])

/-- The eviction ends, and node 1 gets the page for a writer. -/
def writerRun : List (Action 2 Nat) :=
  [.endEvict 0, .dirUnlock 0 ⟨false, false⟩, .pushArrive 1 ⟨0, 0⟩, .pushNotify 1,
    .lockSuccess 1 ⟨true, false, []⟩, .gotLock 1 ⟨true, .answered .waitLockRelease⟩,
    .takePushList 1 ⟨true, .granted⟩, .fetchDone 1 ⟨true, .pushing []⟩]

/-- Node 0 gets the page back for three readers. -/
def readersRun : List (Action 2 Nat) :=
  [.lock 0 false, .dirLock 0 ⟨false, .asking⟩, .pending 1 ⟨true, some 0⟩,
    .pendingFinish 1 ⟨0, some 0⟩, .release 1 true, .releasePush 1 ⟨true, 2, none⟩,
    .releaseFinish 1 ⟨true, 2, some true⟩, .dirUnlock 1 ⟨true, false⟩,
    .unlockReturn 1 ⟨true, true⟩, .pushArrive 0 ⟨0, 0⟩, .pushNotify 0,
    .lockSuccess 0 ⟨false, false, []⟩, .gotLock 0 ⟨false, .answered .waitLockRelease⟩,
    .takePushList 0 ⟨false, .granted⟩, .fetchDone 0 ⟨false, .pushing []⟩, .lock 0 false,
    .lock 0 false]

/-- Node 1 asks for the page again. The Pending handler that the eviction lost its victim to only now
comes back from its `LRPAnyUnLock` and unlocks the mutex in the middle of a release. So two releases
look at `dest_node_id` before one of them has cleared it, and both push the page. -/
def overlappingReleasesRun : List (Action 2 Nat) :=
  [.lock 1 true, .dirLock 1 ⟨true, .asking⟩, .pending 0 ⟨false, some 1⟩,
    .pendingFinish 0 ⟨0, some 1⟩, .release 0 false, .unlockReturn 0 ⟨false, true⟩,
    .release 0 false, .releasePush 0 ⟨false, 0, none⟩, .releasePush 0 ⟨false, 0, none⟩,
    .releaseFinish 0 ⟨false, 0, some true⟩, .releaseFinish 0 ⟨false, 0, some true⟩,
    .release 0 false, .releasePush 0 ⟨false, 1, none⟩, .releaseFinish 0 ⟨false, 1, some false⟩,
    .dirUnlock 0 ⟨true, false⟩]

/-- A run in which a page is pushed twice. -/
def doublePushRun : List (Action 2 Nat) :=
  evictLostRun ++ writerRun ++ readersRun ++ overlappingReleasesRun

/-- After an eviction has lost its victim, the page may be pushed twice for one grant. -/
theorem page_pushed_twice :
    ∃ s : State 2 Nat, Run State.step (fun _ _ => True) (State.init ⟨0, 0⟩) s ∧
      (s.nodes 1).grants = [⟨true, false, []⟩] ∧ (s.nodes 1).pushes.length = 2 := by
  obtain ⟨s, run, hs⟩ := Run.of_reaches State.step (fun _ _ => True) doublePushRun
    (State.init ⟨0, 0⟩) (fun s => decide ((s.nodes 1).grants = [⟨true, false, []⟩] ∧
      (s.nodes 1).pushes.length = 2)) (by decide +kernel)
  exact ⟨s, run, of_decide_eq_true hs⟩

end LazyRelease
