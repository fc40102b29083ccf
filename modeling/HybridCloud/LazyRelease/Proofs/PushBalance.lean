import HybridCloud.LazyRelease.Proofs.PushDuty

/-!
# Pushes and duties to push stay balanced

Whoever becomes entitled to a push is at the same time made the destination of one
(`Balanced.dirStep`), and from then on the duty is handed on and turned into a push without being
lost or doubled (`Balanced.step`).
-/

namespace LazyRelease

open GPLM Outcome Counting

variable {N : Nat} {α : Type} {s s' : State N α} {n d : NodeId N} {nd nd' : Node N α}
  {a b : AbsDirectory N}

attribute [local simp] AbsDirectory.front AbsDirectory.enqueue Node.defers Node.outbound
  Node.notifying Node.setStage

theorem owed_of_nil (h : nd.fetches = []) : nd.owed a n = 0 := by
  simp [Node.owed, h]

variable {f : Fetch N}

theorem owed_of_asking (h : nd.fetches = [f]) : nd.owed a n = f.owed a n nd := by
  simp [Node.owed, h]

theorem NodeInv.owed_le_one (h : NodeInv a n nd) : nd.owed a n ≤ 1 := by
  cases h.phase with
  | idle hi => simp [owed_of_nil hi.fetches]
  | @fetching f ha hp =>
    rw [owed_of_asking ha.fetches]
    unfold Fetch.owed
    split
    · rename_i hstage
      split
      · split <;> omega
      · rename_i hnq
        cases hp with
        | waiting _ _ _ hst =>
          rcases hst with ⟨hst, -⟩ | ⟨-, hq⟩
          · simp [hst] at hstage
          · exact absurd (mem_queued.2 ⟨_, hq⟩) hnq
        | served _ _ hn =>
          rw [if_pos hstage] at hn
          have hc := List.countP_le_length (p := fun g : LockSuccessRequest N => !g.isNewest)
            (l := nd.grants)
          have hle : (nd.lk.successReturn && nd.lk.needWait).toNat ≤ nd.lk.successReturn.toNat := by
            cases nd.lk.successReturn <;> cases nd.lk.needWait <;> decide
          omega
    · omega
    · omega
    · omega

/-- What a fetch that waits is entitled to depends on the directory only through its place in the
queue. -/
theorem owed_congr (hq : n ∈ b.queued ↔ n ∈ a.queued)
    (hfront : n ∈ a.queued → (b.front = some n ∧ n ∉ b.holders ↔ a.front = some n ∧ n ∉ a.holders)) :
    f.owed b n nd = f.owed a n nd := by
  unfold Fetch.owed
  split
  · by_cases hmem : n ∈ a.queued
    · simp only [hq.2 hmem, hmem, if_true, hfront hmem]
    · simp only [mt hq.1 hmem, hmem, if_false]
  · rfl
  · rfl
  · rfl

theorem nodeOwed_congr (hq : n ∈ b.queued ↔ n ∈ a.queued)
    (hfront : n ∈ a.queued → (b.front = some n ∧ n ∉ b.holders ↔ a.front = some n ∧ n ∉ a.holders)) :
    nd.owed b n = nd.owed a n := by
  unfold Node.owed
  congr 1
  exact List.map_congr_left fun f _ => owed_congr hq hfront

theorem outbound_setStage (stage : FetchStage N) (mem : f ∈ nd.fetches) (d : NodeId N) :
    (nd.setStage f stage).outbound d + f.pushesLeft d =
      nd.outbound d + Fetch.pushesLeft d ⟨f.x, stage⟩ := by
  have hsum := List.sum_map_erase (Fetch.pushesLeft d) mem
  have hdefers : (nd.setStage f stage).defers d ↔ nd.defers d := Iff.rfl
  simp only [Node.outbound, Node.setStage, List.map_cons, List.sum_cons] at hsum hdefers ⊢
  simp only [hdefers]
  omega

variable {stage : FetchStage N}

theorem owed_setStage (ha : Asking nd f) :
    (nd.setStage f stage).owed a n = Fetch.owed a n nd ⟨f.x, stage⟩ := by
  have hf : (nd.setStage f stage).fetches = [⟨f.x, stage⟩] := by simp [ha.fetches]
  exact owed_of_asking hf

theorem pushesLeft_of_stage (h : f.stage = stage) (d : NodeId N) :
    f.pushesLeft d = Fetch.pushesLeft d ⟨f.x, stage⟩ := by
  simp only [Fetch.pushesLeft, h]

theorem fetchOwed_of_stage (h : f.stage = stage) :
    f.owed a n nd = Fetch.owed a n nd ⟨f.x, stage⟩ := by
  simp only [Fetch.owed, h]

theorem NodeInv.owed_of_success (h : NodeInv a n nd) (mem : f ∈ nd.fetches)
    (stage : f.stage = .answered .waitLockRelease) (success : nd.lk.successReturn = true) :
    nd.owed a n = nd.lk.needWait.toNat ∧ nd.grants = [] := by
  obtain ⟨ha, hp⟩ := h.fetch_of_mem mem
  cases hp with
  | waiting _ hs => simp [success] at hs
  | served hg _ hn =>
    have hnil : nd.grants = [] := by
      rw [if_pos stage, success] at hn
      exact List.length_eq_zero_iff.1 (by simpa using hn)
    rw [owed_of_asking ha.fetches, fetchOwed_of_stage stage]
    simp [Fetch.owed, hg.unqueued, hnil, success]

variable {g : LockSuccessRequest N}

theorem NodeInv.owed_of_grant (h : NodeInv a n nd) (mem : g ∈ nd.grants) :
    ∃ f, nd.fetches = [f] ∧ f.stage = .answered .waitLockRelease ∧ nd.grants = [g] ∧
      nd.lk.successReturn = false ∧ n ∉ a.queued ∧ nd.owed a n = (!g.isNewest).toNat := by
  cases h.phase with
  | idle hi => simp [hi.grants] at mem
  | @fetching f ha hp =>
    cases hp with
    | waiting hgr => simp [hgr] at mem
    | served hg _ hn =>
      have hpos := List.length_pos_of_mem mem
      have hstage : f.stage = .answered .waitLockRelease := by
        by_contra hne
        rw [if_neg hne] at hn
        omega
      rw [if_pos hstage] at hn
      have hs : nd.lk.successReturn = false := by
        cases hsr : nd.lk.successReturn with
        | false => rfl
        | true =>
          rw [hsr] at hn
          simp only [Bool.toNat_true] at hn
          omega
      have hgs : nd.grants = [g] := eq_singleton_of_mem mem (by simpa [hs] using hn)
      refine ⟨f, ha.fetches, hstage, hgs, hs, hg.unqueued, ?_⟩
      rw [owed_of_asking ha.fetches, fetchOwed_of_stage hstage]
      cases hnew : g.isNewest <;> simp [Fetch.owed, hg.unqueued, hgs, hs, hnew]

theorem Balanced.setStage (h : Balanced s) (hlock : LockInv s) (stage : FetchStage N)
    (mem : f ∈ (s.nodes n).fetches) (hf : f.notifies = false)
    (hstage : Fetch.notifies ⟨f.x, stage⟩ = false)
    (hout : ∀ d, nd.outbound d = (s.nodes n).outbound d) (hfetches : nd.fetches = [⟨f.x, stage⟩])
    (hin : nd.pushes.length + nd.arrived + nd.lk.updateSuccess.toNat +
      f.owed s.dir.view n (s.nodes n) = (s.nodes n).pushes.length + (s.nodes n).arrived +
      (s.nodes n).lk.updateSuccess.toNat + Fetch.owed s.dir.view n nd ⟨f.x, stage⟩) :
    Balanced (s.setNode n nd) := by
  obtain ⟨ha, -⟩ := (hlock.node n).fetch_of_mem mem
  refine h.setNode hout ?_
  rw [owed_of_asking ha.fetches, owed_of_asking hfetches]
  have h0 : nd.notifying = 0 := by
    simp only [Node.notifying, hfetches, List.countP_singleton, hstage, Bool.false_eq_true, if_false]
  have h1 : (s.nodes n).notifying = 0 := by
    simp only [Node.notifying, ha.fetches, List.countP_singleton, hf, Bool.false_eq_true, if_false]
  simp only [Node.inbound, h0, h1]
  omega

theorem Balanced.lockAsk (h : Balanced s) (hlock : LockInv s) {x : Bool}
    (not_granting : (s.nodes n).lk.isGranting = false)
    (hfetches : nd.fetches = ⟨x, .asking⟩ :: (s.nodes n).fetches)
    (hnd : nd = { s.nodes n with lk := nd.lk, fetches := nd.fetches, received := nd.received })
    (hlk : nd.lk = { (s.nodes n).lk with lock := nd.lk.lock, isGranting := nd.lk.isGranting }) :
    Balanced (s.setNode n nd) := by
  have hi := (hlock.node n).idle not_granting
  have hf : nd.fetches = [⟨x, .asking⟩] := by rw [hfetches, hi.fetches]
  refine h.setNode_congr (fun d => ?_) ?_ ?_
  · rw [hnd, hlk, hf]
    simp [hi.fetches, Fetch.pushesLeft]
  · rw [hnd, hlk, hf]
    simp [Node.inbound, hi.fetches, Fetch.notifies]
  · rw [owed_of_asking hf, owed_of_nil hi.fetches]
    rfl

theorem outbound_releasePush {r : Release} (hm : MutexInv nd) (mem : r ∈ nd.releases)
    (pushed : r.pushed = none)
    (hr : nd'.releases = { r with pushed := some nd.lk.destNodeId.isSome } :: nd.releases.erase r)
    (hnd : nd' = { nd with releases := nd'.releases }) (d : NodeId N) :
    nd'.outbound d + (if nd.lk.destNodeId = some d then 1 else 0) = nd.outbound d := by
  obtain ⟨hrel, -⟩ := hm.of_release mem
  have hold : nd.defers d ↔ nd.lk.destNodeId = some d := by
    simp [hrel, pushed]
  have hdest : nd'.lk.destNodeId = nd.lk.destNodeId := by rw [hnd]
  have hnew : ¬ nd'.defers d := by
    rintro ⟨hd, hall⟩
    refine hall _ (by rw [hr]; exact List.mem_cons_self) ?_
    rw [hdest] at hd
    simp [hd]
  rw [Node.outbound, if_neg hnew, hnd]
  simp only [Node.outbound, hold]
  omega

theorem outbound_releaseUnlock {r : Release} {b : Bool} (hd : DestInv nd) (mem : r ∈ nd.releases)
    (pushed : r.pushed = some b) (hdest : nd'.lk.destNodeId = (r.unlock b nd.lk).destNodeId)
    (hpush : nd'.lk.pushList = nd.lk.pushList)
    (hnd : nd' = { nd with lk := nd'.lk, releases := nd'.releases, unlocks := nd'.unlocks })
    (d : NodeId N) : nd'.outbound d = nd.outbound d := by
  have hnone := hdest.trans (hd.dest_unlock mem pushed)
  have hnew : ¬ nd'.defers d := fun h => by simp [h.1] at hnone
  have hold : ¬ nd.defers d := by
    rintro ⟨hd', hall⟩
    have hb := hd.release_pushed r mem b pushed
    rw [hd', Option.isSome_some] at hb
    exact hall r mem (by rw [pushed, hb])
  have hrest : nd'.pendings = nd.pendings ∧ nd'.handlers = nd.handlers ∧ nd'.grants = nd.grants ∧
      nd'.fetches = nd.fetches := by
    rw [hnd]
    exact ⟨rfl, rfl, rfl, rfl⟩
  obtain ⟨hp, hh, hg, hf⟩ := hrest
  simp only [Node.outbound, if_neg hnew, if_neg hold, hpush, hp, hh, hg, hf]

theorem unlock_frame (r : Release) (b : Bool) (lk : LRLocalPageLock N) :
    (r.unlock b lk).pushList = lk.pushList ∧ (r.unlock b lk).updateSuccess = lk.updateSuccess ∧
      (r.unlock b lk).successReturn = lk.successReturn ∧ (r.unlock b lk).needWait = lk.needWait := by
  cases hx : r.x <;> cases b <;>
    simp [Release.unlock, hx, LRLocalPageLock.unlockExclusive, LRLocalPageLock.unlockShared,
      apply_ite]

theorem inbound_congr (hnd : nd' = { nd with
      lk := nd'.lk, releases := nd'.releases, pendings := nd'.pendings, handlers := nd'.handlers
      unlocks := nd'.unlocks })
    (hup : nd'.lk.updateSuccess = nd.lk.updateSuccess) : nd'.inbound = nd.inbound := by
  rw [Node.inbound, hup, hnd]
  rfl

theorem owed_congr_lk (hfetches : nd'.fetches = nd.fetches) (hgrants : nd'.grants = nd.grants)
    (hsr : nd'.lk.successReturn = nd.lk.successReturn) (hnw : nd'.lk.needWait = nd.lk.needWait) :
    nd'.owed a n = nd.owed a n := by
  simp only [Node.owed, hfetches]
  refine congrArg List.sum (List.map_congr_left fun f _ => ?_)
  simp only [Fetch.owed, hgrants, hsr, hnw]

theorem pendingCase_frame {lk lk' : LRLocalPageLock N} {x : Bool} {k : Nat}
    (h : lk.PendingCase x lk' k) : lk'.destNodeId = lk.destNodeId ∧ lk'.pushList = lk.pushList ∧
      lk'.updateSuccess = lk.updateSuccess ∧ lk'.successReturn = lk.successReturn ∧
      lk'.needWait = lk.needWait := by
  cases h <;> exact ⟨rfl, rfl, rfl, rfl, rfl⟩

theorem outbound_pending {p : PendingRequest N} {k : Nat} (mem : p ∈ nd.pendings)
    (hp : nd'.pendings = nd.pendings.erase p) (hh : nd'.handlers = ⟨k, p.dest⟩ :: nd.handlers)
    (hdest : nd'.lk.destNodeId = nd.lk.destNodeId) (hpush : nd'.lk.pushList = nd.lk.pushList)
    (hnd : nd' = { nd with lk := nd'.lk, pendings := nd'.pendings, handlers := nd'.handlers })
    (d : NodeId N) : nd'.outbound d = nd.outbound d := by
  have herase := countP_erase_add (fun p : PendingRequest N => decide (p.dest = some d)) mem
  have hrest : nd'.releases = nd.releases ∧ nd'.grants = nd.grants ∧ nd'.fetches = nd.fetches := by
    rw [hnd]
    exact ⟨rfl, rfl, rfl⟩
  obtain ⟨hr, hg, hf⟩ := hrest
  have hdefers : nd'.defers d ↔ nd.defers d := by simp only [Node.defers, hdest, hr]
  simp only [Node.outbound, hdefers, hpush, hp, hh, hg, hf, List.countP_cons]
  omega

variable {unlocks : List UnlockCall} {p : PendingHandler N}

theorem outbound_pendingGive (mem : p ∈ nd.handlers) (d : NodeId N) :
    ({ nd with buffer := none, handlers := nd.handlers.erase p, unlocks := unlocks } :
      Node N α).outbound d + (if p.dest = some d then 1 else 0) = nd.outbound d := by
  have herase := countP_erase_add (fun p : PendingHandler N => decide (p.dest = some d)) mem
  have hdefers : ({ nd with buffer := none, handlers := nd.handlers.erase p, unlocks := unlocks } :
      Node N α).defers d ↔ nd.defers d := Iff.rfl
  simp only [decide_eq_true_eq] at herase
  simp only [Node.outbound, hdefers]
  omega

theorem outbound_pendingKeep (hd : DestInv nd) (hm : MutexInv nd) (mem : p ∈ nd.handlers)
    (hdest : nd'.lk.destNodeId = if p.dest.isSome then p.dest else nd.lk.destNodeId)
    (hpush : nd'.lk.pushList = nd.lk.pushList) (hh : nd'.handlers = nd.handlers.erase p)
    (hnd : nd' = { nd with lk := nd'.lk, handlers := nd'.handlers }) (d : NodeId N) :
    nd'.outbound d = nd.outbound d := by
  obtain ⟨hrel, -⟩ := hm.of_handler mem
  have hnone := hd.handler_dest p mem
  have herase := countP_erase_add (fun p : PendingHandler N => decide (p.dest = some d)) mem
  have hold : ¬ nd.defers d := fun h => by simp [h.1] at hnone
  have hrest : nd'.pendings = nd.pendings ∧ nd'.releases = nd.releases ∧ nd'.grants = nd.grants ∧
      nd'.fetches = nd.fetches := by
    rw [hnd]
    exact ⟨rfl, rfl, rfl, rfl⟩
  obtain ⟨hp, hr, hg, hf⟩ := hrest
  have hnew : nd'.defers d ↔ p.dest = some d := by
    rw [Node.defers, hr, hrel, hdest, hnone]
    cases hpd : p.dest <;> simp
  simp only [decide_eq_true_eq] at herase
  simp only [Node.outbound, hnew, if_neg hold, hpush, hp, hh, hg, hf]
  omega

theorem NodeInv.fetch_of_queued (h : NodeInv a n nd) (hq : n ∈ a.queued) :
    ∃ f, nd.fetches = [f] ∧ f.stage = .answered .waitLockRelease ∧ nd.grants = [] ∧
      nd.lk.successReturn = false := by
  cases h.phase with
  | idle hi => exact absurd hq hi.unqueued
  | @fetching f ha hp =>
    cases hp with
    | served hg => exact absurd hq hg.unqueued
    | waiting hgr hs _ hst =>
      rcases hst with ⟨-, hnq⟩ | ⟨hst, -⟩
      · exact absurd hq hnq
      · exact ⟨f, ha.fetches, hst, hgr, hs⟩

theorem NodeInv.owed_of_queued (h : NodeInv a n nd) (hq : n ∈ a.queued) :
    nd.owed a n = if a.front = some n ∧ n ∉ a.holders then 1 else 0 := by
  obtain ⟨f, hf, hst, -⟩ := h.fetch_of_queued hq
  rw [owed_of_asking hf, fetchOwed_of_stage hst]
  simp only [Fetch.owed, hq, if_true]

theorem mem_queued_of_front (h : a.front = some n) : n ∈ a.queued := by
  cases hq : a.queue with
  | nil => simp [hq] at h
  | cons r rs =>
    have hr : r.nodeId = n := by simpa [hq] using h
    simp [AbsDirectory.queued, hq, hr]

theorem inbound_receive (nd : Node N α) (m : NodeId N) (msgs : List (DirMsg N)) :
    (nd.receive m msgs).inbound = nd.inbound := rfl

variable {dir : Directory N} {msgs : List (DirMsg N)}

theorem Balanced.afterDir (h : Balanced s) (hout : ∀ d, nd.outbound d = (s.nodes n).outbound d)
    (howed : ∀ k, k ≠ n → ((s.nodes k).receive k msgs).owed dir.view k =
      (s.nodes k).owed s.dir.view k + (msgs.map (pushesAsked k)).sum)
    (hown : (nd.receive n msgs).owed dir.view n + (s.nodes n).inbound =
      (s.nodes n).owed s.dir.view n + (msgs.map (pushesAsked n)).sum + nd.inbound) :
    Balanced (s.afterDir dir msgs n nd) := by
  intro k
  have hk := h k
  have hset := duty_setNode s n nd k
  have houtk := hout k
  rw [duty_afterDir]
  show (Node.receive _ k msgs).inbound + _ = (Node.receive _ k msgs).owed dir.view k
  rw [inbound_receive]
  by_cases hkn : k = n
  · subst hkn
    rw [Function.update_self]
    omega
  · rw [Function.update_of_ne hkn]
    have := howed k hkn
    omega

theorem owed_receive (h : msgs.filterMap (successFor n) = []) :
    (nd.receive n msgs).owed a n = nd.owed a n := by
  have hg : (nd.receive n msgs).grants = nd.grants := by simp [Node.receive, h]
  exact owed_congr_lk rfl hg rfl rfl

theorem Balanced.enqueue (h : Balanced s) (hlock : LockInv s) (mem : f ∈ (s.nodes n).fetches)
    (stage : f.stage = .asking) (unqueued : n ∉ s.dir.view.queued) (sound : dir.Sound)
    (view : dir.view = (s.dir.view.enqueue ⟨n, f.x⟩).1) :
    Balanced (s.afterDir dir (s.dir.view.enqueue ⟨n, f.x⟩).2 n
      ((s.nodes n).setStage f (.answered .waitLockRelease))) := by
  obtain ⟨ha, -⟩ := (hlock.node n).fetch_of_mem mem
  have hqueued : ∀ k, k ∈ dir.view.queued ↔ k ∈ s.dir.view.queued ∨ k = n := by
    intro k
    simp [view, AbsDirectory.queued]
  -- either a round is on, and nothing is sent, or the request starts one
  have hmsgs : ∀ k, (s.dir.view.enqueue ⟨n, f.x⟩).2.filterMap (successFor k) = [] ∧
      ((s.dir.view.enqueue ⟨n, f.x⟩).2.map (pushesAsked k)).sum +
          (if s.dir.view.front = some k ∧ k ∉ s.dir.view.holders then 1 else 0) =
        if dir.view.front = some k ∧ k ∉ dir.view.holders then 1 else 0 := by
    intro k
    cases hq : s.dir.view.queue with
    | nil =>
      have heq : (s.dir.view.enqueue ⟨n, f.x⟩).2 = dir.view.pendingMsgs := by
        simp [hq, view]
      have hfront : s.dir.view.front = none := by simp [hq]
      rw [heq, sum_pushesAsked_pendingMsgs sound.wf, hfront]
      exact ⟨filterMap_successFor_pendingMsgs, by simp⟩
    | cons r rs =>
      have hnil : (s.dir.view.enqueue ⟨n, f.x⟩).2 = [] := by simp [hq]
      have hfront : dir.view.front = s.dir.view.front := by
        simp [view, hq]
      have hholders : dir.view.holders = s.dir.view.holders := by
        simp [view]
      rw [hnil, hfront, hholders]
      exact ⟨rfl, by simp⟩
  refine h.afterDir (fun d => ?_) (fun k hk => ?_) ?_
  · have hset := outbound_setStage (.answered .waitLockRelease) mem d
    rw [pushesLeft_of_stage stage] at hset
    exact hset
  · obtain ⟨hsucc, hasked⟩ := hmsgs k
    have hqk := hqueued k
    rw [owed_receive hsucc]
    by_cases hmem : k ∈ s.dir.view.queued
    · rw [(hlock.node k).owed_of_queued hmem]
      obtain ⟨g, hg, hst, -⟩ := (hlock.node k).fetch_of_queued hmem
      rw [owed_of_asking hg, fetchOwed_of_stage hst]
      simp only [Fetch.owed, hqk.2 (.inl hmem), if_true]
      omega
    · have hnot : k ∉ dir.view.queued := by simpa [hqk, hmem] using hk
      have hf1 : dir.view.front ≠ some k := fun hfr => hnot (mem_queued_of_front hfr)
      have hf2 : s.dir.view.front ≠ some k := fun hfr => hmem (mem_queued_of_front hfr)
      simp only [hf1, hf2, false_and, if_false] at hasked
      rw [nodeOwed_congr (a := s.dir.view) (by simp [hnot, hmem]) fun hc => absurd hc hmem]
      omega
  · obtain ⟨hsucc, hasked⟩ := hmsgs n
    have hf2 : s.dir.view.front ≠ some n := fun hfr => unqueued (mem_queued_of_front hfr)
    simp only [hf2, false_and, if_false] at hasked
    have hin : ((s.nodes n).setStage f (.answered .waitLockRelease)).inbound =
        (s.nodes n).inbound := by
      have hnot := notifying_setStage (.answered .waitLockRelease) mem
        (by rw [notifies_of_stage stage]; rfl) rfl
      simp only [Node.inbound, hnot]
      rfl
    rw [owed_receive hsucc, owed_setStage ha, owed_of_asking ha.fetches, fetchOwed_of_stage stage,
      hin]
    simp only [Fetch.owed, (hqueued n).2 (.inr rfl), if_true]
    omega

theorem Balanced.grantedAtOnce (h : Balanced s) (hlock : LockInv s) {stage' : FetchStage N}
    (mem : f ∈ (s.nodes n).fetches) (stage : f.stage = .asking) (hq : s.dir.view.queue = [])
    (hq' : dir.view.queue = []) (hleft : ∀ d, Fetch.pushesLeft d ⟨f.x, stage'⟩ = 0)
    (howed : Fetch.owed dir.view n (s.nodes n) ⟨f.x, stage'⟩ = (Fetch.notifies ⟨f.x, stage'⟩).toNat) :
    Balanced (s.afterDir dir [] n ((s.nodes n).setStage f stage')) := by
  obtain ⟨ha, -⟩ := (hlock.node n).fetch_of_mem mem
  refine h.afterDir (fun d => ?_) (fun k hk => ?_) ?_
  · have hset := outbound_setStage stage' mem d
    rw [pushesLeft_of_stage stage, hleft] at hset
    exact hset
  · rw [receive_nil, nodeOwed_congr (a := s.dir.view) (b := dir.view)
      (by simp [AbsDirectory.queued, hq, hq']) fun hc => by simp [AbsDirectory.queued, hq] at hc]
    rfl
  · have hf : f.notifies = false := by rw [notifies_of_stage stage]; rfl
    have hnew : ((s.nodes n).setStage f stage').notifying =
        (Fetch.notifies ⟨f.x, stage'⟩).toNat := by
      simp only [Node.notifying, Node.setStage, ha.fetches, List.erase_cons_head,
        List.countP_singleton]
      cases Fetch.notifies (⟨f.x, stage'⟩ : Fetch N) <;> rfl
    have hold : (s.nodes n).notifying = 0 := by
      simp [ha.fetches, hf]
    have hin : ((s.nodes n).setStage f stage').inbound =
        (s.nodes n).inbound + (Fetch.notifies ⟨f.x, stage'⟩).toNat := by
      simp only [Node.inbound, hnew, hold]
      rfl
    rw [receive_nil, owed_setStage ha, owed_of_asking ha.fetches, fetchOwed_of_stage stage, howed,
      hin]
    simp only [Fetch.owed, List.map_nil, List.sum_nil]
    omega

theorem Balanced.leave (h : Balanced s) (pended : Pended s.dir.view n)
    (view : dir.view = s.dir.view.leave n) :
    Balanced (s.afterDir dir [] n { s.nodes n with unlocks := unlocks }) := by
  obtain ⟨-, r, rs, hq, hr⟩ := pended
  have hcongr : ∀ (k : NodeId N) (nd : Node N α),
      nd.owed dir.view k = nd.owed s.dir.view k := by
    intro k nd
    rw [view]
    refine nodeOwed_congr Iff.rfl fun _ => ?_
    have hfront : (s.dir.view.leave n).front = s.dir.view.front := rfl
    rw [hfront]
    refine and_congr_right fun hk => ?_
    have hkr : r.nodeId = k := by simpa [hq] using hk
    have hkn : k ≠ n := hkr ▸ hr
    simp [AbsDirectory.leave, AbsDirectory.mem_rest, hkn]
  refine h.afterDir (fun d => rfl) (fun k _ => ?_) ?_
  · rw [receive_nil, hcongr]
    rfl
  · rw [receive_nil, hcongr]
    rfl

theorem grants_receive_grant (nd : Node N α) (n : NodeId N) (a : AbsDirectory N) (x : Bool)
    {first : NodeId N} {others : List (NodeId N)} (queue : List (LRRequest N))
      (hnd : (first :: others).Nodup) :
    (nd.receive n (a.grant x first others queue).2).grants = nd.grants ++
      if n = first then [⟨x, first ∈ a.holders, others⟩]
      else if n ∈ others then [⟨x, false, []⟩] else [] := by
  simp only [AbsDirectory.grant, Node.receive, List.filterMap_append,
    filterMap_successFor_pendingMsgs, List.append_nil, filterMap_successFor_successMsgs hnd]

section Grant

variable {x : Bool} {first : NodeId N} {others : List (NodeId N)} {queue : List (LRRequest N)}

/-- A node that is granted the page is entitled to a push, except for the first one if it still has
the page. -/
theorem NodeInv.owed_granted (h : NodeInv a n nd) (hnodup : (first :: others).Nodup)
    (hn : n ∈ first :: others) (hq : n ∈ a.queued) (hunq : n ∉ (b.grant x first others queue).1.queued)
    (front : a.front = some first) (hholder : first ∈ b.holders ↔ first ∈ a.holders) :
    (nd.receive n (b.grant x first others queue).2).owed (b.grant x first others queue).1 n =
      nd.owed a n + others.count n := by
  obtain ⟨f, hf, hst, hg0, hs0⟩ := h.fetch_of_queued hq
  have hgr := grants_receive_grant nd n b x queue hnodup
  have hfet : (nd.receive n (b.grant x first others queue).2).fetches = [f] := hf
  have hsr : (nd.receive n (b.grant x first others queue).2).lk.successReturn = false := hs0
  rw [h.owed_of_queued hq, front, owed_of_asking hfet, fetchOwed_of_stage hst]
  simp only [Fetch.owed, hunq, if_false, hgr, hg0, List.nil_append, hsr]
  obtain ⟨hfo, hothers⟩ := List.nodup_cons.1 hnodup
  by_cases hnf : n = first
  · subst hnf
    have hcount : others.count n = 0 := List.count_eq_zero.2 hfo
    by_cases hin : n ∈ a.holders <;> simp [hcount, hholder, hin]
  · have hno : n ∈ others := by simpa [hnf] using hn
    have hcount : others.count n = 1 := List.count_eq_one_of_mem hothers hno
    simp [hnf, hno, hcount, Ne.symm hnf]

/-- A node that is not granted the page is entitled to a push if the next round works for it. -/
theorem NodeInv.owed_not_granted (h : NodeInv a n nd) (hnodup : (first :: others).Nodup)
    (hn : n ∉ first :: others)
    (hq : n ∈ (b.grant x first others queue).1.queued ↔ n ∈ a.queued)
    (front : a.front = some first) :
    (nd.receive n (b.grant x first others queue).2).owed (b.grant x first others queue).1 n =
      nd.owed a n + if (b.grant x first others queue).1.front = some n ∧
        n ∉ (b.grant x first others queue).1.holders then 1 else 0 := by
  obtain ⟨hnf, hno⟩ := not_or.1 (mt List.mem_cons.2 hn)
  have hsucc : (b.grant x first others queue).2.filterMap (successFor n) = [] := by
    simp only [AbsDirectory.grant, List.filterMap_append, filterMap_successFor_pendingMsgs,
      List.append_nil, filterMap_successFor_successMsgs hnodup, hnf, hno, if_false]
  rw [owed_receive hsucc]
  by_cases hmem : n ∈ a.queued
  · obtain ⟨f, hf, hst, -⟩ := h.fetch_of_queued hmem
    have hfn : a.front ≠ some n := by
      rw [front]
      exact fun he => hnf (Option.some.inj he).symm
    rw [h.owed_of_queued hmem, owed_of_asking hf, fetchOwed_of_stage hst]
    simp only [Fetch.owed, hq.2 hmem, if_true, hfn, false_and, if_false, Nat.zero_add]
  · have hf1 : (b.grant x first others queue).1.front ≠ some n := fun hfr =>
      hmem (hq.1 (mem_queued_of_front hfr))
    rw [nodeOwed_congr hq fun hc => absurd hc hmem]
    simp only [hf1, false_and, if_false, Nat.add_zero]

/-- The page is handed on: the first new holder gets it from the node that was told so when the round
started, the others get it from the first one, and the next round starts. -/
theorem Balanced.grant (h : Balanced s) (hlock : LockInv s) (sound : dir.Sound)
    (pended : Pended s.dir.view n)
    (view : dir.view = ((s.dir.view.leave n).grant x first others queue).1)
    (front : s.dir.view.front = some first)
    (granted : ∀ k ∈ first :: others, ⟨k, x⟩ ∈ s.dir.view.queue ∧ k ∉ queue.map (·.nodeId))
    (kept : ∀ k, k ∉ first :: others → ∀ y, ⟨k, y⟩ ∈ queue ↔ ⟨k, y⟩ ∈ s.dir.view.queue) :
    Balanced (s.afterDir dir ((s.dir.view.leave n).grant x first others queue).2 n
      { s.nodes n with unlocks := unlocks }) := by
  have hwf : ((s.dir.view.leave n).grant x first others queue).1.WF := view ▸ sound.wf
  have hasked : ∀ k, (((s.dir.view.leave n).grant x first others queue).2.map
      (pushesAsked k)).sum = others.count k +
        if ((s.dir.view.leave n).grant x first others queue).1.front = some k ∧
          k ∉ ((s.dir.view.leave n).grant x first others queue).1.holders then 1 else 0 := by
    intro k
    rw [← sum_pushesAsked_pendingMsgs hwf]
    simp only [AbsDirectory.grant, List.map_append, List.sum_append, sum_pushesAsked_successMsgs]
  have hfn : first ≠ n := by
    obtain ⟨-, r, rs, hq, hr⟩ := pended
    have : r.nodeId = first := by simpa [hq] using front
    exact this ▸ hr
  have howed : ∀ k, ((s.nodes k).receive k ((s.dir.view.leave n).grant x first others queue).2).owed
      dir.view k = (s.nodes k).owed s.dir.view k +
        (((s.dir.view.leave n).grant x first others queue).2.map (pushesAsked k)).sum := by
    intro k
    rw [hasked k, view]
    by_cases hk : k ∈ first :: others
    · obtain ⟨hq, hnq⟩ := granted k hk
      have hf0 : ((s.dir.view.leave n).grant x first others queue).1.front ≠ some k := fun hfr =>
        hnq (mem_queued_of_front hfr)
      rw [(hlock.node k).owed_granted hwf.holders_nodup hk (mem_queued.2 ⟨x, hq⟩) hnq front
        (by simp [AbsDirectory.leave, AbsDirectory.mem_rest, hfn])]
      simp only [hf0, false_and, if_false, Nat.add_zero]
    · have hcount : others.count k = 0 :=
        List.count_eq_zero.2 fun hko => hk (List.mem_cons_of_mem _ hko)
      have hqk : k ∈ ((s.dir.view.leave n).grant x first others queue).1.queued ↔
          k ∈ s.dir.view.queued := by
        rw [mem_queued, mem_queued]
        exact exists_congr fun y => kept k hk y
      rw [(hlock.node k).owed_not_granted hwf.holders_nodup hk hqk front, hcount, Nat.zero_add]
  exact h.afterDir (fun d => rfl) (fun k _ => howed k)
    (congrArg (· + (s.nodes n).inbound) (howed n))

end Grant

variable {act : Action N α}

theorem Balanced.dirStep (h : Balanced s) (hlock : LockInv s) (hs : DirStep s act s') :
    Balanced s' := by
  cases hs with
  | enqueue mem stage unqueued sound view => exact h.enqueue hlock mem stage unqueued sound view
  | storage mem stage queue _ _ view | join mem stage _ queue _ _ _ _ view
  | upgrade mem stage _ queue _ _ _ view =>
    exact h.grantedAtOnce hlock mem stage queue (by rw [view]; exact queue) (fun _ => rfl) rfl
  | leave _ _ pended _ view => exact h.leave pended view
  | grant _ _ pended sound view front _ granted kept =>
    exact h.grant hlock sound pended view front granted kept
  | @evict n lsn d mem holder queue sound view =>
    intro k
    have hset : Balanced (s.setEvict n (s.nodes n).lk (.asking lsn) .agreed) :=
      h.setNode_congr (fun _ => rfl) rfl rfl
    have hk := hset k
    rw [nodeOwed_congr (a := s.dir.view)]
    · exact hk
    · rw [view]
      exact Iff.rfl
    · intro hc
      simp [AbsDirectory.queued, queue] at hc
  | @refuse n lsn d mem sound view =>
    intro k
    have hset : Balanced (s.setEvict n (s.nodes n).lk (.asking lsn) .ending) :=
      h.setNode_congr (fun _ => rfl) rfl rfl
    rw [view]
    exact hset k

theorem Balanced.not_updated_of_arrived (h : Balanced s) (hlock : LockInv s)
    (pos : 0 < (s.nodes n).arrived) : (s.nodes n).lk.updateSuccess = false := by
  have hn := h n
  have hle := (hlock.node n).owed_le_one
  simp only [Node.inbound] at hn
  exact Bool.toNat_eq_zero.1 (by omega)

theorem Balanced.lockSuccess (h : Balanced s) (hlock : LockInv s) (mem : g ∈ (s.nodes n).grants)
    (hlk : nd.lk = g.notify (s.nodes n).lk) (hgrants : nd.grants = (s.nodes n).grants.erase g)
    (hnd : nd = { s.nodes n with lk := nd.lk, grants := nd.grants }) :
    Balanced (s.setNode n nd) := by
  obtain ⟨f, hf, hst, hgs, hs, hnq, howed⟩ := (hlock.node n).owed_of_grant mem
  have hnil : nd.grants = [] := by simp [hgrants, hgs]
  have hfetches : nd.fetches = (s.nodes n).fetches := by rw [hnd]
  refine h.setNode (fun d => ?_) ?_
  · have hframe := outbound_add_handedOn (s.nodes n) nd (by rw [hnd]) (by rw [hnd])
      (by rw [hlk]; rfl) (by rw [hnd]) d
    simp only [Node.handedOn, hlk, LockSuccessRequest.notify, hnil, hgs, hfetches, List.map_nil,
      List.sum_nil, List.map_cons, List.sum_cons, List.count_append] at hframe
    omega
  · have hnew : nd.owed s.dir.view n = (!g.isNewest).toNat := by
      rw [owed_of_asking (hfetches.trans hf), fetchOwed_of_stage hst]
      simp [Fetch.owed, hnq, hnil, hlk, LockSuccessRequest.notify]
    have hin : nd.inbound = (s.nodes n).inbound := by
      rw [hnd, hlk]
      rfl
    rw [howed, hnew, hin]

theorem Balanced.gotLock (h : Balanced s) (hlock : LockInv s) (mem : f ∈ (s.nodes n).fetches)
    (stage : f.stage = .answered .waitLockRelease) (success : (s.nodes n).lk.successReturn = true)
    (update : (s.nodes n).lk.updateSuccess = (s.nodes n).lk.needWait) :
    Balanced (s.setNode n { (s.nodes n).setStage f .granted with
      lk := { (s.nodes n).lk with
        updateSuccess := false, needWait := false, successReturn := false } }) := by
  obtain ⟨ha, -⟩ := (hlock.node n).fetch_of_mem mem
  obtain ⟨howed, -⟩ := (hlock.node n).owed_of_success mem stage success
  rw [owed_of_asking ha.fetches] at howed
  refine h.setStage hlock .granted mem (by rw [notifies_of_stage stage]; rfl) rfl
    (fun d => ?_) (by simp [ha.fetches]) ?_
  · have hset := outbound_setStage .granted mem d
    rw [pushesLeft_of_stage stage] at hset
    exact hset
  · rw [howed, update]
    simp only [Node.setStage, Fetch.owed, Bool.toNat_false]
    omega

theorem Balanced.takePushList (h : Balanced s) (hlock : LockInv s) (mem : f ∈ (s.nodes n).fetches)
    (stage : f.stage = .granted) :
    Balanced (s.setNode n { (s.nodes n).setStage f (.pushing (s.nodes n).lk.pushList) with
      lk := { (s.nodes n).lk with pushList := [] } }) := by
  obtain ⟨ha, -⟩ := (hlock.node n).fetch_of_mem mem
  have hleft : ∀ d, f.pushesLeft d = 0 := fun d => by rw [pushesLeft_of_stage stage]; rfl
  refine h.setStage hlock (.pushing (s.nodes n).lk.pushList) mem
    (by rw [notifies_of_stage stage]; rfl) rfl (fun d => ?_)
    (by simp [ha.fetches]) (by rw [fetchOwed_of_stage stage]; rfl)
  have hframe := outbound_add_handedOn (s.nodes n)
    { (s.nodes n).setStage f (.pushing (s.nodes n).lk.pushList) with
      lk := { (s.nodes n).lk with pushList := [] } } rfl rfl rfl rfl d
  have hnew : Fetch.pushesLeft d ⟨f.x, .pushing (s.nodes n).lk.pushList⟩ =
      (s.nodes n).lk.pushList.count d := rfl
  simp only [Node.handedOn, Node.setStage, ha.fetches, List.erase_cons_head, List.map_cons,
    List.map_nil, List.sum_cons, List.sum_nil, List.count_nil, hleft d, hnew] at hframe
  simp only [Node.setStage, ha.fetches, List.erase_cons_head]
  omega

/-- Every step keeps pushes and grants in balance. -/
theorem Balanced.step [DecidableEq α] (hN : N < EXCLUSIVE_LOCKED) (h : Balanced s)
    (hlock : LockInv s) (hm : Disciplined s) (hd : Deferred s) (hs : Step s act s') :
    Balanced s' := by
  have hdir := hlock.dirStep_of_step hN hs
  cases hs with
  | lockLocalS | lockLocalX | unlockReturn | beginEvict | evictLost | evictNone | evictAsk
  | evictReplace | evictDone | endEvict => exact h.setNode_congr (fun _ => rfl) rfl rfl
  | lockAskS quiet | lockAskX quiet => exact h.lockAsk hlock quiet.not_granting rfl rfl rfl
  | dirLock | dirUnlock | dirEvict => exact h.dirStep hlock (hdir rfl)
  | @notifyPush n m f page mem stage buf ne =>
    obtain ⟨ha, -⟩ := (hlock.node n).fetch_of_mem mem
    have hset : Balanced (s.setNode n { (s.nodes n).setStage f (.answered (.pushFrom m)) with
        pushes := (s.nodes n).pushes ++ [page] }) := by
      refine h.setNode_congr (fun d => ?_) ?_ ?_
      · have hset := outbound_setStage (.answered (.pushFrom m)) mem d
        rw [pushesLeft_of_stage stage] at hset
        exact hset
      · have hf : f.notifies = true := by rw [notifies_of_stage stage]; rfl
        have hnew : Fetch.notifies (⟨f.x, .answered (.pushFrom m)⟩ : Fetch N) = false := rfl
        simp only [Node.inbound, Node.notifying, Node.setStage, ha.fetches, List.erase_cons_head,
          List.countP_singleton, hf, hnew, List.length_append, List.length_singleton,
          Bool.false_eq_true, if_false, if_true]
        omega
      · rw [owed_of_asking ha.fetches, fetchOwed_of_stage stage]
        exact owed_setStage ha
    intro k
    obtain ⟨-, hv⟩ := hlock.sound.notifyPushPageDone
    exact hset k
  | @readStorage n f k lsn mem stage =>
    refine h.setStage hlock (.pushing []) mem (by rw [notifies_of_stage stage]; rfl) rfl (fun d => ?_)
      ((hlock.node n).setStage_fetches mem _) (by rw [fetchOwed_of_stage stage]; rfl)
    have hset := outbound_setStage (.pushing []) mem d
    rw [pushesLeft_of_stage stage] at hset
    exact hset
  | @gotPush n m f mem stage _ update =>
    refine h.setStage hlock (.pushing []) mem (by rw [notifies_of_stage stage]; rfl) rfl
      (fun d => ?_) ((hlock.node n).setStage_fetches mem _) ?_
    · have hset := outbound_setStage (.pushing []) mem d
      rw [pushesLeft_of_stage stage] at hset
      exact hset
    · rw [fetchOwed_of_stage stage, update]
      rfl
  | gotLock mem stage _ success update => exact h.gotLock hlock mem stage success update
  | takePushList mem stage => exact h.takePushList hlock mem stage
  | @pushNext n d f pushList page mem stage buf ne =>
    obtain ⟨ha, -⟩ := (hlock.node n).fetch_of_mem mem
    refine h.pushed_setNode ne (fun k => ?_) ?_ ?_
    · have hset := outbound_setStage (.pushing pushList) mem k
      rw [pushesLeft_of_stage stage] at hset
      simp only [Fetch.pushesLeft, List.count_append, List.count_singleton] at hset
      by_cases hk : k = d
      · subst hk
        simp only [beq_self_eq_true, if_true] at hset ⊢
        omega
      · have hb : (d == k) = false := by simpa using Ne.symm hk
        simp only [hb, hk, Bool.false_eq_true, if_false] at hset ⊢
        omega
    · have hnot := notifying_setStage (.pushing pushList) mem
        (by rw [notifies_of_stage stage]; rfl) rfl
      simp only [Node.inbound, hnot]
      rfl
    · rw [owed_setStage ha, owed_of_asking ha.fetches, fetchOwed_of_stage stage]
      rfl
  | @fetchDone n f mem stage =>
    obtain ⟨ha, -⟩ := (hlock.node n).fetch_of_mem mem
    have hnil : (s.nodes n).fetches.erase f = [] := by simp [ha.fetches]
    have hleft : ∀ d, f.pushesLeft d = 0 := fun d => by rw [pushesLeft_of_stage stage]; rfl
    have hf : f.notifies = false := by rw [notifies_of_stage stage]; rfl
    refine h.setNode_congr (fun d => ?_) ?_ ?_
    · simp [ha.fetches, hleft d]
    · simp [Node.inbound, ha.fetches, hf]
    · rw [owed_of_nil hnil, owed_of_asking ha.fetches, fetchOwed_of_stage stage]
      rfl
  | @write n | @writeUnlogged n =>
    have hn : ∀ buffer, Balanced (s.setNode n { s.nodes n with buffer := buffer }) := fun _ =>
      h.setNode_congr (fun _ => rfl) rfl rfl
    exact fun k => hn _ k
  | @releaseS n | @releaseX n =>
    refine h.setNode_congr (fun d => ?_) rfl rfl
    simp [LRLocalPageLock.takeMtx]
  | @releaseKeep n r mem pushed x keeps dest =>
    refine h.setNode_congr (fun d => ?_) rfl rfl
    simp [dest]
  | @releasePush n r mem pushed pushes dest =>
    exact h.sent_setNode dest (fun k => outbound_releasePush (hm n) mem pushed rfl rfl k) rfl rfl
  | @releaseEnd n r b mem pushed | @releaseUnlock n r b mem pushed =>
    obtain ⟨hpush, hup, hsr, hnw⟩ := unlock_frame r b (s.nodes n).lk
    refine h.setNode_congr (fun d => outbound_releaseUnlock (hd n) mem pushed rfl hpush rfl d) ?_ ?_
    · exact inbound_congr rfl hup
    · exact owed_congr_lk rfl rfl hsr hnw
  | @pending n p lk k mem _ _ _ case =>
    obtain ⟨hdest, hpush, hup, hsr, hnw⟩ := pendingCase_frame case
    refine h.setNode_congr (fun d => outbound_pending mem rfl rfl hdest hpush rfl d) ?_ ?_
    · exact inbound_congr rfl hup
    · exact owed_congr_lk rfl rfl hsr hnw
  | @pendingGive n p mem gives dest buf =>
    exact h.sent_setNode (fun d hpd => ⟨dest d hpd, buf⟩) (fun k => outbound_pendingGive mem k)
      rfl rfl
  | @pendingKeep n p mem keeps =>
    refine h.setNode_congr (fun d => ?_) rfl rfl
    exact outbound_pendingKeep (hd n) (hm n) mem rfl (by rfl) rfl (by rfl) d
  | @pushArrive n page mem buf =>
    refine h.setNode_congr (fun _ => rfl) ?_ rfl
    have := length_erase_add mem
    simp only [Node.inbound, Node.notifying]
    omega
  | @pushNotify n pos =>
    refine h.setNode_congr (fun _ => rfl) ?_ rfl
    have := h.not_updated_of_arrived hlock pos
    simp only [Node.inbound, Node.notifying, this, Bool.toNat_true, Bool.toNat_false]
    omega
  | lockSuccess mem => exact h.lockSuccess hlock mem rfl rfl rfl

end LazyRelease
