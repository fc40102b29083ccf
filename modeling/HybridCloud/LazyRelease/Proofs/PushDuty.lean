import HybridCloud.LazyRelease.Proofs.MutexDiscipline

/-!
# Who has to push the page to whom

`Node.outbound` counts the pushes that a node still owes to another one, `Node.inbound` those on
their way to a node or arrived there but not taken yet, and `Node.owed` how many the node is
entitled to. The three agree (`State.Balanced`).
-/

namespace LazyRelease

open GPLM Outcome AbsDirectory LRLocalPageLock

variable {N : Nat} {α : Type} {s : State N α} {n d : NodeId N} {nd nd' : Node N α}

/-- `dest_node_id` is set only while the release that will push the page is still to come. -/
structure DestInv (nd : Node N α) : Prop where
  handler_dest : ∀ h ∈ nd.handlers, nd.lk.destNodeId = none
  handler_pending : ∀ h ∈ nd.handlers, h.unlockRemote = 0 → nd.lk.isPending = true
  release_pushed : ∀ r ∈ nd.releases, ∀ b, r.pushed = some b → b = nd.lk.destNodeId.isSome
  dest_pending : nd.lk.destNodeId ≠ none → nd.lk.isPending = true
  pending_used : nd.lk.isPending = true → nd.lk.lock ≠ 0

namespace DestInv

section

variable (h : DestInv nd)
include h

theorem release_cons {r : Release} {rs : List Release} (hrs : rs ⊆ nd.releases)
    (hr : ∀ b, r.pushed = some b → b = nd.lk.destNodeId.isSome) :
    ∀ q ∈ r :: rs, ∀ b, q.pushed = some b → b = nd.lk.destNodeId.isSome := by
  intro q hq
  rcases List.mem_cons.1 hq with rfl | hq
  · exact hr
  · exact h.release_pushed q (hrs hq)

theorem releaseStage {r : Release} (b : Bool) (hb : b = nd.lk.destNodeId.isSome) :
    DestInv { nd with releases := { r with pushed := some b } :: nd.releases.erase r } := by
  refine { h with release_pushed := h.release_cons List.erase_subset ?_ }
  rintro c ⟨⟩
  exact hb

theorem dest_unlock {r : Release} {b : Bool} (mem : r ∈ nd.releases)
    (pushed : r.pushed = some b) : (r.unlock b nd.lk).destNodeId = none := by
  have hb := h.release_pushed r mem b pushed
  cases b with
  | true =>
    cases hx : r.x <;>
      simp [Release.unlock, hx, unlockExclusive, unlockShared,
        apply_ite]
  | false =>
    have hnone : nd.lk.destNodeId = none := by simpa using hb.symm
    cases hx : r.x <;>
      simp [Release.unlock, hx, unlockExclusive, unlockShared,
        apply_ite, hnone]

theorem releaseUnlock (hm : MutexInv nd) {r : Release} {b : Bool}
    (mem : r ∈ nd.releases) (pushed : r.pushed = some b) (hr : nd'.releases = nd.releases.erase r)
    (hh : nd'.handlers = nd.handlers) (hd : nd'.lk.destNodeId = (r.unlock b nd.lk).destNodeId)
    (hp : nd'.lk.isPending = (r.unlock b nd.lk).isPending)
    (hl : nd'.lk.lock = (r.unlock b nd.lk).lock) : DestInv nd' := by
  obtain ⟨hrel, hnil, -⟩ := hm.of_release mem
  have hdest : nd'.lk.destNodeId = none := hd.trans (h.dest_unlock mem pushed)
  refine ⟨by simp [hh, hnil], by simp [hh, hnil], by simp [hr, hrel], fun hne => absurd hdest hne,
    fun hpend => ?_⟩
  rw [hp] at hpend
  rw [hl]
  cases hx : r.x with
  | true =>
    cases b <;> cases hpd : nd.lk.isPending <;>
      simp [Release.unlock, hx, unlockExclusive, hpd] at hpend
  | false =>
    have hcases : ∀ lk : LRLocalPageLock N, lk.unlockShared.isPending = true →
        lk.unlockShared.lock ≠ 0 := by
      intro lk hlk
      simp only [unlockShared] at hlk ⊢
      split at hlk
      · cases hlk
      · rename_i hnot
        rw [if_neg hnot]
        exact fun h0 => hnot ⟨h0, hlk⟩
    simp only [Release.unlock, hx, Bool.false_eq_true, if_false] at hpend ⊢
    exact hcases _ hpend

theorem pending {x : Bool} {lk : LRLocalPageLock N} {k : Nat}
    (not_pending : nd.lk.isPending = false) (case : nd.lk.PendingCase x lk k)
    (dest : nd.lk.destNodeId = none) (hnil : nd.handlers = []) (hgr : nd.lk.isGranting = true →
      nd.lk.lock ≠ 0) {d : Option (NodeId N)} {pendings : List (PendingRequest N)} :
    DestInv { nd with lk := lk, pendings := pendings, handlers := ⟨k, d⟩ :: nd.handlers } := by
  have hlk : lk.destNodeId = none ∧ (k = 0 → lk.isPending = true) ∧
      (lk.isPending = true → lk.lock ≠ 0) := by
    cases case with
    | unused _ _ _ hk =>
      refine ⟨dest, fun h0 => by omega, fun hp => ?_⟩
      simp [takeMtx, not_pending] at hp
    | used _ _ hl => exact ⟨dest, fun _ => rfl, fun _ => hl⟩
    | upgrading =>
      refine ⟨dest, by simp, fun hp => ?_⟩
      simp [takeMtx, not_pending] at hp
    | granting hg => exact ⟨dest, fun _ => rfl, fun _ => hgr hg⟩
  refine ⟨fun _ _ => hlk.1, ?_, fun r hr b hb => ?_, fun hne => absurd hlk.1 hne, hlk.2.2⟩
  · intro h' hmem hk
    rw [hnil, List.mem_singleton] at hmem
    subst hmem
    exact hlk.2.1 hk
  · have := h.release_pushed r hr b hb
    rw [dest] at this
    rw [hlk.1]
    exact this

theorem handled (hm : MutexInv nd) {p : PendingHandler N} (mem : p ∈ nd.handlers)
    (hh : nd'.handlers = nd.handlers.erase p) (hr : nd'.releases = nd.releases)
    (hd : nd'.lk.destNodeId ≠ none → p.unlockRemote = 0)
    (hp : nd'.lk.isPending = nd.lk.isPending) (hl : nd'.lk.lock = nd.lk.lock) : DestInv nd' := by
  obtain ⟨hrel, hhand, -⟩ := hm.of_handler mem
  refine ⟨by simp [hh, hhand], by simp [hh, hhand], by simp [hr, hrel], fun hne => ?_, ?_⟩
  · rw [hp]
    exact h.handler_pending p mem (hd hne)
  · rw [hp, hl]
    exact h.pending_used

end

end DestInv

theorem NodeInv.lock_ne_zero_of_granting {a : AbsDirectory N} (h : NodeInv a n nd)
    (hg : nd.lk.isGranting = true) : nd.lk.lock ≠ 0 := by
  cases h.phase with
  | idle hi => simp [hi.granting] at hg
  | @fetching f ha =>
    rw [ha.lock]
    cases f.x <;> simp [EXCLUSIVE_LOCKED]

/-- The deferred pushes of all nodes are in order. -/
def Deferred (s : State N α) : Prop := ∀ n, DestInv (s.nodes n)

theorem Deferred.setNode (h : Deferred s) (hnd : DestInv nd) (k : NodeId N) :
    DestInv ((s.setNode n nd).nodes k) :=
  forall_setNode (P := fun _ nd => DestInv nd) h hnd k

theorem Deferred.pushed (h : Deferred s) (d : NodeId N) (page : Page α) :
    Deferred (s.pushed d page) := h.setNode { h d with }

theorem Deferred.sent (h : Deferred s) (n : NodeId N) (dest : Option (NodeId N)) :
    Deferred (s.sent n dest) :=
  forall_sent (P := fun _ nd => DestInv nd) h fun d _ _ _ => { h d with }

/-- Every step keeps `Deferred`. -/
theorem Deferred.step [DecidableEq α] {s' : State N α} (h : Deferred s) (hlock : LockInv s)
    (hm : Disciplined s) {a : Action N α} (hs : Step s a s') : Deferred s' := by
  cases hs with
  | lockLocalS | lockAskS => exact h.setNode { h _ with pending_used := fun _ => Nat.succ_ne_zero _ }
  | lockLocalX | lockAskX =>
    exact h.setNode { h _ with pending_used := fun _ => by simp [EXCLUSIVE_LOCKED] }
  | @dirLock n f d msgs reply =>
    intro k
    have hn : DestInv ((s.nodes n).setStage f (State.stageAfter reply)) := { h n with }
    exact { h.setNode (n := n) hn k with }
  | notifyPush | readStorage | gotPush | gotLock | takePushList | fetchDone | write | writeUnlogged
  | unlockReturn | pushArrive | pushNotify | lockSuccess | beginEvict | evictLost | evictNone
  | evictAsk | dirEvict | evictReplace | evictDone | endEvict =>
    refine fun k => h.setNode ?_ k
    exact { h _ with }
  | pushNext => exact (h.pushed _ _).setNode { h _ with }
  | releaseS | releaseX =>
    exact h.setNode { h _ with release_pushed := (h _).release_cons (List.Subset.refl _) (by simp) }
  | releaseKeep _ _ _ _ dest => exact h.setNode ((h _).releaseStage false (by simp [dest]))
  | releasePush => exact (h.sent _ _).setNode ((h _).releaseStage _ rfl)
  | releaseEnd mem pushed | releaseUnlock mem pushed =>
    exact h.setNode ((h _).releaseUnlock (hm _) mem pushed rfl rfl rfl rfl rfl)
  | @pending n p lk k mem _ free not_pending case dest =>
    exact h.setNode ((h n).pending not_pending case dest ((hm n).releases_of_free free).2.1
      (hlock.node n).lock_ne_zero_of_granting)
  | @pendingGive n p mem gives =>
    refine (h.sent _ _).setNode ((h n).handled (hm n) mem rfl rfl (fun hne => ?_) rfl rfl)
    exact absurd ((h n).handler_dest p mem) hne
  | pendingKeep mem keeps =>
    exact h.setNode ((h _).handled (hm _) mem rfl rfl (fun _ => keeps) rfl rfl)
  | @dirUnlock n u d msgs =>
    intro k
    have hn : DestInv { s.nodes n with
        unlocks := { u with served := true } :: (s.nodes n).unlocks.erase u } := { h n with }
    exact { h.setNode (n := n) hn k with }

/-- The pushes to `d` that a fetch still has on its list. -/
def Fetch.pushesLeft (d : NodeId N) (f : Fetch N) : Nat :=
  match f.stage with
  | .pushing pushList => pushList.count d
  | _ => 0

/-- `dest_node_id` is `d` and the release has not pushed the page yet. -/
def Node.defers (nd : Node N α) (d : NodeId N) : Prop :=
  nd.lk.destNodeId = some d ∧ ∀ r ∈ nd.releases, r.pushed ≠ some true

instance (nd : Node N α) (d : NodeId N) : Decidable (nd.defers d) := by
  unfold Node.defers
  infer_instance

/-- The pushes to `d` that the node has been told to make and has not made yet. -/
def Node.outbound (nd : Node N α) (d : NodeId N) : Nat :=
  nd.pendings.countP (fun p => p.dest = some d) + nd.handlers.countP (fun h => h.dest = some d) +
    (if nd.defers d then 1 else 0) + nd.lk.pushList.count d +
    (nd.grants.map fun g => g.destNodeIds.count d).sum + (nd.fetches.map (Fetch.pushesLeft d)).sum

/-- The part of `outbound` that comes with grants. -/
def Node.handedOn (nd : Node N α) (d : NodeId N) : Nat :=
  nd.lk.pushList.count d + (nd.grants.map fun g => g.destNodeIds.count d).sum +
    (nd.fetches.map (Fetch.pushesLeft d)).sum

theorem outbound_add_handedOn (nd nd' : Node N α) (hp : nd'.pendings = nd.pendings)
    (hh : nd'.handlers = nd.handlers)
    (hdest : nd'.lk.destNodeId = nd.lk.destNodeId) (hr : nd'.releases = nd.releases)
    (d : NodeId N) : nd'.outbound d + nd.handedOn d = nd.outbound d + nd'.handedOn d := by
  have hdefers : nd'.defers d ↔ nd.defers d := by simp only [Node.defers, hdest, hr]
  simp only [Node.outbound, Node.handedOn, hdefers, hp, hh]
  omega

/-- The pushes to the node that are on their way, or have arrived and have not been taken. A lock call
in its `NotifyPushPage` counts as a push on its way. -/
def Node.inbound (nd : Node N α) : Nat :=
  nd.pushes.length + nd.arrived + nd.lk.updateSuccess.toNat + nd.notifying

/-- The pushes that a fetch is entitled to. -/
def Fetch.owed (a : AbsDirectory N) (n : NodeId N) (nd : Node N α) (f : Fetch N) : Nat :=
  match f.stage with
  | .answered .waitLockRelease =>
    if n ∈ a.queued then if a.front = some n ∧ n ∉ a.holders then 1 else 0
    else nd.grants.countP (fun g => !g.isNewest) + (nd.lk.successReturn && nd.lk.needWait).toNat
  | .notifying _ | .answered (.pushFrom _) => 1
  | _ => 0

/-- The pushes that a node is entitled to. -/
def Node.owed (a : AbsDirectory N) (n : NodeId N) (nd : Node N α) : Nat :=
  (nd.fetches.map (Fetch.owed a n nd)).sum

/-- The pushes to `d` that somebody still has to make. -/
def State.duty (s : State N α) (d : NodeId N) : Nat := ∑ m, (s.nodes m).outbound d

/-- Every node gets the pushes that it is entitled to, and no others. -/
def Balanced (s : State N α) : Prop :=
  ∀ n, (s.nodes n).inbound + s.duty n = (s.nodes n).owed s.dir.view n

theorem duty_setNode (s : State N α) (n : NodeId N) (nd : Node N α) (d : NodeId N) :
    (s.setNode n nd).duty d + (s.nodes n).outbound d = s.duty d + nd.outbound d :=
  Counting.sum_update_add (fun nd : Node N α => nd.outbound d) s.nodes n nd

theorem setNode_self (s : State N α) (n : NodeId N) (nd : Node N α) :
    (s.setNode n nd).nodes n = nd := by
  simp [State.setNode]

theorem setNode_of_ne (s : State N α) (nd : Node N α) {k : NodeId N} (h : k ≠ n) :
    (s.setNode n nd).nodes k = s.nodes k := by
  simp [State.setNode, h]

theorem Balanced.setNode (h : Balanced s) (hout : ∀ d, nd.outbound d = (s.nodes n).outbound d)
    (hin : nd.inbound + (s.nodes n).owed s.dir.view n =
      (s.nodes n).inbound + nd.owed s.dir.view n) : Balanced (s.setNode n nd) := by
  intro k
  have hk := h k
  have hduty := duty_setNode s n nd k
  have houtk := hout k
  show ((s.setNode n nd).nodes k).inbound + _ = ((s.setNode n nd).nodes k).owed s.dir.view k
  by_cases hkn : k = n
  · subst hkn
    rw [setNode_self]
    omega
  · rw [setNode_of_ne s nd hkn]
    omega

theorem Balanced.setNode_congr (h : Balanced s)
    (hout : ∀ d, nd.outbound d = (s.nodes n).outbound d)
    (hin : nd.inbound = (s.nodes n).inbound)
    (howed : nd.owed s.dir.view n = (s.nodes n).owed s.dir.view n) : Balanced (s.setNode n nd) :=
  h.setNode hout (by rw [hin, howed])

theorem Balanced.pushed_setNode (h : Balanced s) {page : Page α} (ne : d ≠ n)
    (hout : ∀ k, nd.outbound k + (if k = d then 1 else 0) = (s.nodes n).outbound k)
    (hin : nd.inbound = (s.nodes n).inbound)
    (howed : nd.owed s.dir.view n = (s.nodes n).owed s.dir.view n) :
    Balanced ((s.pushed d page).setNode n nd) := by
  intro k
  have hk := h k
  have hpush := duty_setNode s d { s.nodes d with pushes := (s.nodes d).pushes ++ [page] } k
  have hsame : ({ s.nodes d with pushes := (s.nodes d).pushes ++ [page] } : Node N α).outbound k =
      (s.nodes d).outbound k := rfl
  have hduty := duty_setNode (s.pushed d page) n nd k
  rw [pushed_nodes_self ne] at hduty
  have houtk := hout k
  have hdir : ((s.pushed d page).setNode n nd).dir = s.dir := rfl
  have hpd : (s.pushed d page).duty k = s.duty k := by
    unfold State.pushed
    omega
  rw [hdir]
  by_cases hkn : k = n
  · subst hkn
    rw [setNode_self]
    rw [if_neg (Ne.symm ne)] at houtk
    omega
  · rw [setNode_of_ne _ nd hkn]
    by_cases hkd : k = d
    · subst hkd
      have hnode : (s.pushed k page).nodes k =
          { s.nodes k with pushes := (s.nodes k).pushes ++ [page] } := setNode_self _ _ _
      have hinb : ((s.pushed k page).nodes k).inbound = (s.nodes k).inbound + 1 := by
        rw [hnode]
        simp only [Node.inbound, Node.notifying, List.length_append, List.length_singleton]
        omega
      have howk : ((s.pushed k page).nodes k).owed s.dir.view k = (s.nodes k).owed s.dir.view k := by
        rw [hnode]
        rfl
      rw [if_pos rfl] at houtk
      omega
    · have hnode : (s.pushed d page).nodes k = s.nodes k := setNode_of_ne _ _ hkd
      rw [if_neg hkd] at houtk
      rw [hnode]
      omega

theorem Balanced.sent_setNode (h : Balanced s) {dest : Option (NodeId N)}
    (hdest : ∀ d, dest = some d → d ≠ n ∧ (s.nodes n).buffer.isSome = true)
    (hout : ∀ k, nd.outbound k + (if dest = some k then 1 else 0) = (s.nodes n).outbound k)
    (hin : nd.inbound = (s.nodes n).inbound)
    (howed : nd.owed s.dir.view n = (s.nodes n).owed s.dir.view n) :
    Balanced ((s.sent n dest).setNode n nd) := by
  cases dest with
  | none => exact h.setNode_congr (fun k => by simpa using hout k) hin howed
  | some d =>
    obtain ⟨hne, hbuf⟩ := hdest d rfl
    obtain ⟨page, hpage⟩ := Option.isSome_iff_exists.1 hbuf
    have hsent : s.sent n (some d) = s.pushed d page := by simp [State.sent, hpage]
    rw [hsent]
    refine h.pushed_setNode hne (fun k => ?_) hin howed
    rw [← hout k]
    simp [eq_comm]

/-- The pushes to `d` that a message of the directory asks for. -/
def pushesAsked (d : NodeId N) : DirMsg N → Nat
  | .pending _ _ dest => if dest = some d then 1 else 0
  | .lockSuccess _ _ _ dests => dests.count d

/-- The pushes to `d` that a message asks node `m` for. -/
def pushesAskedOf (m d : NodeId N) (msg : DirMsg N) : Nat :=
  match pendingFor m msg, successFor m msg with
  | some p, _ => if p.dest = some d then 1 else 0
  | _, some g => g.destNodeIds.count d
  | none, none => 0

theorem outbound_receive (nd : Node N α) (m d : NodeId N) (msgs : List (DirMsg N)) :
    (nd.receive m msgs).outbound d = nd.outbound d + (msgs.map (pushesAskedOf m d)).sum := by
  have hmsgs : (msgs.filterMap (pendingFor m)).countP (fun p => p.dest = some d) +
      ((msgs.filterMap (successFor m)).map fun g => g.destNodeIds.count d).sum =
      (msgs.map (pushesAskedOf m d)).sum := by
    induction msgs with
    | nil => rfl
    | cons msg msgs ih =>
      rw [List.map_cons, List.sum_cons, ← ih]
      cases msg with
      | pending k | lockSuccess k =>
        by_cases hk : k = m
        · simp [pushesAskedOf, pendingFor, successFor, hk, List.countP_cons, List.filterMap_cons]
          omega
        · simp [pushesAskedOf, pendingFor, successFor, hk, List.filterMap_cons]
  have hdefers : (nd.receive m msgs).defers d ↔ nd.defers d := Iff.rfl
  simp only [Node.outbound, Node.receive, List.countP_append, List.map_append, List.sum_append]
    at hmsgs ⊢
  simp only [Node.receive] at hdefers
  simp only [hdefers]
  omega

theorem sum_pushesAskedOf (d : NodeId N) (msg : DirMsg N) :
    ∑ m, pushesAskedOf m d msg = pushesAsked d msg := by
  cases msg with
  | pending k | lockSuccess k =>
    -- the message is one to node `k`
    rw [Finset.sum_eq_single k]
    · simp [pushesAskedOf, pendingFor, successFor, pushesAsked]
    · intro m _ hm
      simp [pushesAskedOf, pendingFor, successFor, Ne.symm hm]
    · simp

theorem sum_map_pushesAskedOf (d : NodeId N) (msgs : List (DirMsg N)) :
    ∑ m, (msgs.map (pushesAskedOf m d)).sum = (msgs.map (pushesAsked d)).sum := by
  induction msgs with
  | nil => simp
  | cons msg msgs ih =>
    simp only [List.map_cons, List.sum_cons, Finset.sum_add_distrib, sum_pushesAskedOf, ih]

theorem duty_afterDir (s : State N α) (dir : Directory N) (msgs : List (DirMsg N)) (n : NodeId N)
    (nd : Node N α) (d : NodeId N) :
    (s.afterDir dir msgs n nd).duty d =
      (s.setNode n nd).duty d + (msgs.map (pushesAsked d)).sum := by
  rw [← sum_map_pushesAskedOf, State.duty, State.duty, ← Finset.sum_add_distrib]
  exact Finset.sum_congr rfl fun m _ => outbound_receive _ m d msgs

/-- The Pending messages of a round ask for one push, to the node the round works for, unless it has
the page already. -/
theorem sum_pushesAsked_pendingMsgs {a : AbsDirectory N} (hwf : a.WF) (d : NodeId N) :
    (a.pendingMsgs.map (pushesAsked d)).sum =
      if a.front = some d ∧ d ∉ a.holders then 1 else 0 := by
  cases hq : a.queue with
  | nil => simp [pendingMsgs, front, hq]
  | cons r rs =>
    have hfront : a.front = some r.nodeId := by simp [front, hq]
    -- the messages name the pusher once
    have hsum : ∀ l : List (NodeId N), l.Nodup → ∀ o : Option (NodeId N),
        ((l.map fun h => DirMsg.pending h a.excl (if some h = o then some r.nodeId else none)).map
          (pushesAsked d)).sum = if (∃ h ∈ l, some h = o) ∧ r.nodeId = d then 1 else 0 := by
      intro l hl o
      induction l with
      | nil => simp
      | cons m l ih =>
        obtain ⟨hm, hl⟩ := List.nodup_cons.1 hl
        rw [List.map_cons, List.map_cons, List.sum_cons, ih hl]
        by_cases ho : some m = o
        · subst ho
          by_cases hd : r.nodeId = d <;> simp [pushesAsked, hm, hd]
        · by_cases hd : r.nodeId = d <;> simp [pushesAsked, ho, hd]
    have hpush : (∃ h ∈ a.holders.filter fun h => h ≠ r.nodeId, some h = a.pusher r.nodeId) ↔
        r.nodeId ∉ a.holders := by
      constructor
      · rintro ⟨h, hmem, hp⟩ hr
        obtain ⟨hh, hne⟩ := List.mem_filter.1 hmem
        cases hx : a.excl with
        | true =>
          obtain ⟨k, hk⟩ := hwf.excl_single hx
          rw [hk, List.mem_singleton] at hh hr
          simp [hh, hr] at hne
        | false => simp [pusher, hx, hr] at hp
      · intro hr
        obtain ⟨h, hh, hne⟩ := hwf.round hq
        cases hx : a.excl with
        | true =>
          obtain ⟨k, hk⟩ := hwf.excl_single hx
          refine ⟨h, List.mem_filter.2 ⟨hh, by simpa using hne⟩, ?_⟩
          rw [hk, List.mem_singleton] at hh
          simp [pusher, hx, hk, hh]
        | false =>
          cases hw : a.newest with
          | none =>
            rw [hwf.newest_none hw] at hh
            simp at hh
          | some m =>
            have hm := hwf.newest_mem hw
            have hmr : m ≠ r.nodeId := fun he => hr (he ▸ hm)
            exact ⟨m, List.mem_filter.2 ⟨hm, by simpa using hmr⟩,
              by simp [pusher, hx, hr, hw]⟩
    simp only [pendingMsgs, hq]
    rw [hsum _ (hwf.holders_nodup.filter _), hfront]
    refine if_congr ?_ rfl rfl
    rw [hpush]
    constructor
    · rintro ⟨hr, rfl⟩
      exact ⟨rfl, hr⟩
    · rintro ⟨hr, hd⟩
      obtain rfl := Option.some.inj hr
      exact ⟨hd, rfl⟩

/-- The LockSuccess messages ask the first new holder for a push to each of the others. -/
theorem sum_pushesAsked_successMsgs (x newest : Bool) (first : NodeId N)
    (others : List (NodeId N)) (d : NodeId N) :
    ((successMsgs x newest first others).map (pushesAsked d)).sum =
      others.count d := by
  simp [successMsgs, pushesAsked, Function.comp_def]

end LazyRelease
