import HybridCloud.LazyRelease.Proofs.HolderAsked

/-!
# Nodes that give the page up and nodes that are granted it

A node whose `LRPAnyUnLock` has not returned has no lock on the page; if a release made the call
then no thread of the node asks the directory meanwhile, and the page in the buffer is about to go
(`UnlockInv`). A node is told that it has the newest page only if it has kept its shared lock while
it waited for the upgrade (`NewestInv`).
-/

namespace LazyRelease

open GPLM Outcome Function AbsDirectory

variable {N : Nat} {α : Type} {s s' : State N α} {n : NodeId N} {nd nd' : Node N α}
  {a b : AbsDirectory N}

/-- What has been shown about every run in which no eviction loses its victim. -/
structure ProtocolInv (s : State N α) : Prop where
  lock : LockInv s
  mutex : Disciplined s
  push : PushInv s
  asked : Asked s
  dirMutex : DirMutexInv s

variable {allowed : State N α → Action N α → Prop}

theorem protocolInv_of_run [DecidableEq α] {base : Page α} (hN : N < EXCLUSIVE_LOCKED)
    (hallowed : ∀ s a, allowed s a → a.KeepsVictim)
    (run : Run State.step allowed (State.init base) s) : ProtocolInv s where
  lock := lockInv_of_run hN run
  mutex := disciplined_of_run hallowed run
  push := pushInv_of_run hN hallowed run
  asked := asked_of_run hN hallowed run
  dirMutex := dirMutexInv_of_run run

/-- How the directory answers the lock call of node `k`. -/
inductive Answer (a b : AbsDirectory N) (k : NodeId N) : FetchStage N → Prop where
  | wait : Answer a b k (.answered .waitLockRelease)
  | storage (unheld : a.holders = []) : Answer a b k (.answered (.storageFetch a.lsn))
  | join {m : NodeId N} (holder : m ∈ b.holders) (unlisted : k ∉ a.holders) :
      Answer a b k (.notifying m)
  | upgrade (queue : a.queue = []) (holder : k ∈ a.holders) : Answer a b k (.pushing [])

/-- What a call that turns directory `a` into `b` does to the record of node `k`. Only the node at the
front of the queue may be told that it has the newest page. -/
inductive DirEffect (a b : AbsDirectory N) (k : NodeId N) (nd : Node N α) : Node N α → Prop where
  /-- Another node calls. -/
  | message {msgs : List (DirMsg N)} (kept : k ∈ a.holders → k ∈ b.holders)
      (newest : ∀ g ∈ msgs.filterMap (successFor k), g.isNewest = true →
        k ∈ a.holders ∧ k ∈ a.queued ∧ a.front = some k)
      (older : ∀ g ∈ msgs.filterMap (successFor k), g.isNewest = false →
        k ∉ a.holders ∧ k ∈ a.queued) :
      DirEffect a b k nd (nd.receive k msgs)
  /-- The node's lock call is answered. -/
  | answered {f : Fetch N} {stage : FetchStage N} {msgs : List (DirMsg N)} (mem : f ∈ nd.fetches)
      (asking : f.stage = .asking) (answer : Answer a b k stage)
      (kept : k ∈ a.holders → k ∈ b.holders) (none_granted : msgs.filterMap (successFor k) = []) :
      DirEffect a b k nd ((nd.setStage f stage).receive k msgs)
  /-- The node has given the page up. -/
  | unlocked {u : UnlockCall} {msgs : List (DirMsg N)} (mem : u ∈ nd.unlocks)
      (served : u.served = false) (left : k ∈ b.holders → nd.lk.isGranting = true)
      (none_newest : ∀ g ∈ msgs.filterMap (successFor k), g.isNewest = false) :
      DirEffect a b k nd ({ nd with
        unlocks := { u with served := true } :: nd.unlocks.erase u }.receive k msgs)
  /-- The node's eviction is agreed to. -/
  | evicted {lsn : Nat} (mem : .asking lsn ∈ nd.evicts) (left : k ∉ b.holders)
      (holder : k ∈ a.holders) (queue : a.queue = []) :
      DirEffect a b k nd { nd with evicts := .agreed :: nd.evicts.erase (.asking lsn) }
  /-- The node's eviction is refused. -/
  | refused {lsn : Nat} (mem : .asking lsn ∈ nd.evicts) (same : b = a) :
      DirEffect a b k nd { nd with evicts := .ending :: nd.evicts.erase (.asking lsn) }

theorem DirEffect.unchanged {k : NodeId N} (kept : k ∈ a.holders → k ∈ b.holders) :
    DirEffect a b k nd nd := by
  have h : DirEffect a b k nd (nd.receive k []) := .message kept nofun nofun
  rwa [receive_nil] at h

variable {act : Action N α}

theorem DirStep.granting_of_listed (h : LockInv s) (hs : DirStep s act s') {k : NodeId N}
    (hk : k ∈ s'.dir.view.holders) : k ∈ s.dir.view.holders ∨ (s.nodes k).lk.isGranting = true := by
  cases hs with
  | enqueue _ _ _ _ view | upgrade _ _ _ _ _ _ _ view =>
    left
    have hk' := (congrArg holders view) ▸ hk
    exact hk'
  | @storage n f d mem _ _ _ _ view =>
    right
    have hk' := (congrArg holders view) ▸ hk
    obtain rfl : k = n := by simpa using hk'
    exact ((h.node k).fetch_of_mem mem).1.granting
  | @join n m f d mem _ _ _ _ _ _ _ view =>
    have hk' := (congrArg holders view) ▸ hk
    rcases List.mem_append.1 hk' with hk' | hk'
    · exact .inl hk'
    · right
      obtain rfl := List.mem_singleton.1 hk'
      exact ((h.node k).fetch_of_mem mem).1.granting
  | leave _ _ _ _ view | evict _ _ _ _ view =>
    left
    have hk' := (congrArg holders view) ▸ hk
    exact (mem_rest.1 hk').1
  | grant _ _ _ _ view _ _ granted =>
    right
    have hk' := (congrArg holders view) ▸ hk
    have hq := (granted k hk').1
    cases (h.node k).phase with
    | idle hi => exact absurd (mem_queued.2 ⟨_, hq⟩) hi.unqueued
    | fetching ha => exact ha.granting
  | refuse _ _ view =>
    left
    have hk' := view ▸ hk
    exact hk'

/-- A node that has told the directory is not listed any more, unless it asks again. -/
theorem DirStep.granting_of_unlocked (h : LockInv s) {u : UnlockCall}
    (hs : DirStep s (.dirUnlock n u) s') (hn : n ∈ s'.dir.view.holders) :
    (s.nodes n).lk.isGranting = true := by
  cases hs with
  | leave _ _ _ _ view =>
    have hn' := (congrArg holders view) ▸ hn
    exact absurd rfl (mem_rest.1 hn').2
  | grant _ _ _ _ view _ _ granted =>
    have hn' := (congrArg holders view) ▸ hn
    have hq := (granted n hn').1
    cases (h.node n).phase with
    | idle hi => exact absurd (mem_queued.2 ⟨_, hq⟩) hi.unqueued
    | fetching ha => exact ha.granting

theorem filterMap_successFor_enqueue (r : LRRequest N) (k : NodeId N) :
    (a.enqueue r).2.filterMap (successFor k) = [] := by
  unfold enqueue
  split
  · exact filterMap_successFor_pendingMsgs
  · rfl

/-- What a directory call does at one node. -/
theorem DirStep.effect (h : LockInv s) (hs : DirStep s act s') (k : NodeId N) :
    DirEffect s.dir.view s'.dir.view k (s.nodes k) (s'.nodes k) := by
  -- a lock call: node `n` gets its answer, the others at most a message
  have hlockCall : ∀ {n : NodeId N} {f : Fetch N} {stage : FetchStage N} {d : Directory N}
      {msgs : List (DirMsg N)}, f ∈ (s.nodes n).fetches → f.stage = .asking →
      Answer s.dir.view d.view n stage → (∀ k ∈ s.dir.view.holders, k ∈ d.view.holders) →
      (∀ k, msgs.filterMap (successFor k) = []) →
      DirEffect s.dir.view d.view k (s.nodes k)
        ((s.afterDir d msgs n ((s.nodes n).setStage f stage)).nodes k) := by
    intro n f stage d msgs mem asking answer kept hmsgs
    by_cases hk : k = n
    · subst hk
      simp only [State.afterDir, update_self]
      exact .answered mem asking answer (kept k) (hmsgs k)
    · simp only [State.afterDir, update_of_ne hk]
      exact .message (kept k) (by simp [hmsgs k]) (by simp [hmsgs k])
  have hleft := fun u (hact : act = .dirUnlock k u) => (hact ▸ hs).granting_of_unlocked h
  cases hs with
  | @enqueue n f d mem stage _ _ view =>
    refine hlockCall mem stage .wait (fun k hk => ?_) fun k => filterMap_successFor_enqueue _ k
    show k ∈ d.view.holders
    rw [view]
    exact hk
  | storage mem stage queue holders _ view =>
    refine hlockCall mem stage (.storage holders) (fun k hk => ?_) fun _ => rfl
    simp [holders] at hk
  | @join n m f d mem stage _ _ _ unlisted newest _ view =>
    have hsub : ∀ k ∈ s.dir.view.holders, k ∈ d.view.holders := fun k hk => by
      rw [view]
      exact List.mem_append_left _ hk
    exact hlockCall mem stage (.join (hsub _ newest) unlisted) hsub fun _ => rfl
  | @upgrade n f d mem stage _ queue _ holders _ view =>
    refine hlockCall mem stage (.upgrade queue (by simp [holders])) (fun k hk => ?_) fun _ => rfl
    show k ∈ d.view.holders
    rw [view]
    exact hk
  | @leave n u d mem served _ _ view =>
    by_cases hk : k = n
    · subst hk
      simp only [State.afterDir, update_self]
      exact .unlocked mem served (hleft u rfl) (by simp)
    · simp only [State.afterDir, update_of_ne hk, receive_nil]
      refine .unchanged fun hmem => ?_
      rw [view]
      exact mem_rest.2 ⟨hmem, hk⟩
  | @grant n first u d x others queue mem served pended sound view front rest granted _ =>
    have hholders : d.view.holders = first :: others := congrArg holders view
    have hnodup : (first :: others).Nodup := hholders ▸ sound.wf.holders_nodup
    have hnewest : ∀ g ∈ ((s.dir.view.leave n).grant x first others queue).2.filterMap (successFor k),
        g.isNewest = true → k = first ∧ first ∈ s.dir.view.rest n := by
      intro g hg hnew
      rw [AbsDirectory.grant, List.filterMap_append, filterMap_successFor_pendingMsgs,
        List.append_nil, filterMap_successFor_successMsgs hnodup] at hg
      by_cases hk : k = first
      · rw [if_pos hk, List.mem_singleton] at hg
        rw [hg] at hnew
        exact ⟨hk, of_decide_eq_true hnew⟩
      · rw [if_neg hk] at hg
        split at hg
        · rw [List.mem_singleton.1 hg] at hnew
          cases hnew
        · cases hg
    have holder : ∀ g ∈ ((s.dir.view.leave n).grant x first others queue).2.filterMap (successFor k),
        g.isNewest = false → k ∉ s.dir.view.rest n ∧ k ∈ s.dir.view.queued := by
      intro g hg hold
      rw [AbsDirectory.grant, List.filterMap_append, filterMap_successFor_pendingMsgs,
        List.append_nil, filterMap_successFor_successMsgs hnodup] at hg
      by_cases hk : k = first
      · rw [if_pos hk, List.mem_singleton] at hg
        rw [hg] at hold
        refine ⟨hk ▸ of_decide_eq_false hold, mem_queued.2 ⟨x, (granted k ?_).1⟩⟩
        simp [hk]
      · rw [if_neg hk] at hg
        split at hg
        · rename_i hmem
          exact ⟨fun hrest => hk (rest k hrest),
            mem_queued.2 ⟨x, (granted k (List.mem_cons_of_mem _ hmem)).1⟩⟩
        · cases hg
    by_cases hk : k = n
    · subst hk
      simp only [State.afterDir, update_self]
      refine .unlocked mem served (hleft u rfl) fun g hg => ?_
      by_contra hnew
      obtain ⟨rfl, hrest⟩ := hnewest g hg (by simpa using hnew)
      exact (mem_rest.1 hrest).2 rfl
    · simp only [State.afterDir, update_of_ne hk]
      refine .message (fun hmem => ?_) (fun g hg hnew => ?_) fun g hg hold => ?_
      · rw [hholders, rest k (mem_rest.2 ⟨hmem, hk⟩)]
        exact List.mem_cons_self
      · obtain ⟨rfl, hrest⟩ := hnewest g hg hnew
        exact ⟨(mem_rest.1 hrest).1,
          mem_queued.2 ⟨x, (granted k List.mem_cons_self).1⟩, front⟩
      · obtain ⟨hrest, hqueued⟩ := holder g hg hold
        exact ⟨fun hmem => hrest (mem_rest.2 ⟨hmem, hk⟩), hqueued⟩
  | @evict n lsn d mem holder queue _ view =>
    show DirEffect _ d.view _ _ (update s.nodes n _ k)
    by_cases hk : k = n
    · subst hk
      rw [update_self]
      refine .evicted mem ?_ holder queue
      rw [view]
      simp [AbsDirectory.leave, mem_rest]
    · rw [update_of_ne hk]
      refine .unchanged fun hmem => ?_
      rw [view]
      exact mem_rest.2 ⟨hmem, hk⟩
  | @refuse n lsn d mem _ view =>
    show DirEffect _ d.view _ _ (update s.nodes n _ k)
    by_cases hk : k = n
    · subst hk
      rw [update_self]
      exact .refused mem view
    · rw [update_of_ne hk, view]
      exact .unchanged id

/-- What holds while a call of `LRPAnyUnLock` is in flight. -/
structure UnlockInv (a : AbsDirectory N) (n : NodeId N) (nd : Node N α) : Prop where
  mode : ∀ u ∈ nd.unlocks, nd.lk.remoteMode = .none
  /-- Nobody asks for the page while a release gives it up. -/
  release : ∀ u ∈ nd.unlocks, u.fromRelease = true →
    nd.lk.isGranting = false ∧ (u.served = true → n ∉ a.holders)
  /-- A Pending handler drops the page first. -/
  dropped : ∀ u ∈ nd.unlocks, u.fromRelease = false → u.served = false → nd.buffer = none

namespace UnlockInv

theorem of_nil (h : nd.unlocks = []) : UnlockInv a n nd := by
  constructor <;> simp [h]

theorem not_unserved (hgive : nd.giving = 0) {p : Prop} :
    ∀ u ∈ nd.unlocks, u.fromRelease = false → u.served = false → p := by
  intro u hmem _ hs
  have hpos : 0 < nd.unlocks.countP fun u => !u.served :=
    List.countP_pos_iff.2 ⟨u, hmem, by simp [hs]⟩
  simp only [Node.giving] at hgive
  omega

theorem frame (h : UnlockInv a n nd)
    (hold : n ∈ b.holders → n ∈ a.holders ∨ nd.lk.isGranting = true) : UnlockInv b n nd where
  mode := h.mode
  release u hmem hr := by
    obtain ⟨hg, hn⟩ := h.release u hmem hr
    refine ⟨hg, fun hs hb => ?_⟩
    rcases hold hb with ha | hg'
    · exact hn hs ha
    · simp [hg] at hg'
  dropped := h.dropped

theorem served (h : UnlockInv a n nd) {u : UnlockCall} (mem : u ∈ nd.unlocks)
    (left : n ∈ b.holders → nd.lk.isGranting = true) (hm : MutexInv nd) :
    UnlockInv b n { nd with unlocks := { u with served := true } :: nd.unlocks.erase u } := by
  obtain ⟨-, -, hu⟩ := hm.of_unlock mem
  have hall : ∀ v ∈ { u with served := true } :: nd.unlocks.erase u,
      v = { u with served := true } := by
    simp [hu]
  constructor
  · intro v _
    exact h.mode u mem
  · intro v hv hr
    obtain rfl := hall v hv
    obtain ⟨hg, -⟩ := h.release u mem hr
    refine ⟨hg, fun _ hb => ?_⟩
    simp [hg] at left
    exact left hb
  · intro v hv _ hs
    obtain rfl := hall v hv
    cases hs

end UnlockInv

/-- All calls of `LRPAnyUnLock` in flight are in order. -/
def GivenUp (s : State N α) : Prop := ∀ n, UnlockInv s.dir.view n (s.nodes n)

theorem GivenUp.setNode (h : GivenUp s) (hnd : UnlockInv s.dir.view n nd) (k : NodeId N) :
    UnlockInv s.dir.view k ((s.setNode n nd).nodes k) :=
  forall_setNode (P := UnlockInv s.dir.view) h hnd k

theorem GivenUp.sent_setNode (h : GivenUp s) {dest : Option (NodeId N)}
    (hnd : UnlockInv s.dir.view n nd) : GivenUp ((s.sent n dest).setNode n nd) := by
  intro k
  have hsent : ∀ k, UnlockInv s.dir.view k ((s.sent n dest).nodes k) :=
    forall_sent h fun d _ _ _ => { h d with }
  show UnlockInv (s.sent n dest).dir.view k _
  rw [sent_dir]
  exact forall_setNode hsent hnd k

theorem GivenUp.dirStep (h : GivenUp s) (hp : ProtocolInv s) (hs : DirStep s act s') :
    GivenUp s' := by
  intro k
  have hlisted := hs.granting_of_listed hp.lock (k := k)
  have heffect := hs.effect hp.lock k
  generalize s'.nodes k = nd at heffect ⊢
  cases heffect with
  | message | answered | evicted | refused => exact { (h k).frame hlisted with }
  | unlocked mem _ left => exact { (h k).served mem left (hp.mutex k) with }

/-- Every step keeps `GivenUp`. -/
theorem GivenUp.step [DecidableEq α] (hN : N < EXCLUSIVE_LOCKED) (h : GivenUp s)
    (hp : ProtocolInv s) (hs : Step s act s') : GivenUp s' := by
  have hlock := hp.lock
  have hm := hp.mutex
  -- most steps take the mutex, which a call in flight holds
  have hfree : ∀ {n : NodeId N} {nd : Node N α}, (s.nodes n).lk.mutex.held = false →
      nd.unlocks = (s.nodes n).unlocks → GivenUp (s.setNode n nd) := by
    intro n nd free hu
    exact h.setNode (.of_nil (hu.trans ((hm n).releases_of_free free).2.2))
  have hdir := hlock.dirStep_of_step hN hs
  cases hs with
  | lockLocalS quiet | lockAskS quiet | lockLocalX quiet | lockAskX quiet | beginEvict quiet =>
    exact hfree quiet.free rfl
  | dirLock | dirUnlock | dirEvict => exact h.dirStep hp (hdir rfl)
  | notifyPush | evictLost =>
    refine fun k => h.setNode ?_ k
    exact { h _ with }
  | @readStorage n f k lsn mem stage =>
    obtain ⟨-, hphase⟩ := (hlock.node n).fetch_of_mem mem
    cases hphase with
    | waiting _ _ _ hst => simp [stage] at hst
    | served _ _ _ kept => exact h.setNode { h n with dropped := UnlockInv.not_unserved kept }
  | gotPush _ _ free | gotLock _ _ free | takePushList _ _ free | fetchDone _ _ _ free
  | releaseS _ free | releaseX _ free | pending _ _ free | pushNotify _ free | lockSuccess _ free
  | evictNone _ free | evictAsk _ free | evictDone _ free | endEvict _ free => exact hfree free rfl
  | pushNext _ _ buf =>
    rw [pushed_eq_sent buf]
    exact h.sent_setNode { h _ with }
  | @write n _ _ _ writer | @writeUnlogged n _ _ writer =>
    obtain ⟨-, -, hmode, -⟩ := hlock.of_writer writer
    have hnil : (s.nodes n).unlocks = [] := List.eq_nil_iff_forall_not_mem.2 fun u hu => by
      simp [(h n).mode u hu] at hmode
    refine fun k => h.setNode ?_ k
    exact .of_nil hnil
  | @releaseKeep n r mem | @releaseEnd n r b mem =>
    exact h.setNode (.of_nil ((hm n).of_release mem).2.2)
  | @releasePush n r mem => exact h.sent_setNode (.of_nil ((hm n).of_release mem).2.2)
  | @releaseUnlock n r b mem pushed gives =>
    obtain ⟨-, -, hnil⟩ := (hm n).of_release mem
    have hg := (hlock.node n).phase.not_granting_of_release mem
    obtain ⟨hpend, hlast⟩ := (hlock.node n).release_pending r mem gives
    have hun := r.unlocked_unlock b (s.nodes n).lk
    have hgrant : (r.unlock b (s.nodes n).lk).isGranting = (s.nodes n).lk.isGranting := by
      rw [hun.rest]
    refine h.setNode ⟨?_, ?_, ?_⟩
    · intro _ _
      rw [hun.mode, hun.lock, hpend]
      cases hx : r.x <;> simp [hx, hlast]
    · intro u hu _
      refine ⟨hgrant.trans hg, fun hs => ?_⟩
      rw [hnil] at hu
      rw [List.mem_singleton.1 hu] at hs
      cases hs
    · intro u hu hr
      rw [hnil] at hu
      rw [List.mem_singleton.1 hu] at hr
      cases hr
  | @pendingGive n p mem gives =>
    obtain ⟨-, -, hnil⟩ := (hm n).of_handler mem
    have hmode := (hlock.node n).giving_mode (Node.giving_pos_of_handler mem gives)
    refine h.sent_setNode ⟨fun _ _ => hmode, fun u hu hr => ?_, fun _ _ _ _ => rfl⟩
    rw [hnil] at hu
    rw [List.mem_singleton.1 hu] at hr
    cases hr
  | @pendingKeep n p mem => exact h.setNode (.of_nil ((hm n).of_handler mem).2.2)
  | @unlockReturn n u mem =>
    refine h.setNode (.of_nil ?_)
    rw [((hm n).of_unlock mem).2.2, List.erase_cons_head]
  | @pushArrive n page mem =>
    -- nothing is pushed to a node that gives the page up
    refine h.setNode { h n with dropped := UnlockInv.not_unserved ?_ }
    by_contra hg
    have hin := hp.push.inbound_of_giving hlock (Nat.pos_of_ne_zero hg)
    have hpos := List.length_pos_of_mem mem
    rw [Node.inbound] at hin
    omega
  | evictReplace => exact h.setNode { h _ with dropped := fun _ _ _ _ => rfl }

theorem givenUp_init (base : Page α) : GivenUp (State.init base : State N α) :=
  fun _ => .of_nil rfl

/-- A waiting thread has been told, or is about to be told, that the page is in the buffer. -/
def Node.ToldNewest (nd : Node N α) : Prop :=
  (∃ g ∈ nd.grants, g.isNewest = true) ∨
    nd.lk.successReturn = true ∧ nd.lk.needWait = false

/-- Only a node that has kept its lock is told that it has the newest page. -/
def NewestInv (nd : Node N α) : Prop := nd.ToldNewest → nd.lk.remoteMode ≠ .none

theorem Idle.not_toldNewest (h : Idle a n nd) : ¬ nd.ToldNewest := by
  rintro (⟨g, hg, -⟩ | ⟨hs, -⟩)
  · simp [h.grants] at hg
  · simp [h.success] at hs

theorem NodeInv.granted_of_toldNewest (h : NodeInv a n nd) (htold : nd.ToldNewest) :
    ∃ f, Asking nd f ∧ Granted a n f.x := by
  cases h.phase with
  | idle hi => exact absurd htold hi.not_toldNewest
  | @fetching f ha hp =>
    cases hp with
    | served hg => exact ⟨f, ha, hg⟩
    | waiting hgr hs =>
      rcases htold with ⟨g, hg, -⟩ | ⟨hsr, -⟩
      · simp [hgr] at hg
      · simp [hs] at hsr

/-- The node at the front of the queue has not been asked to give up what it holds. -/
theorem NodeInv.mode_of_front (h : NodeInv a n nd) (hn : n ∈ a.holders) (hq : n ∈ a.queued)
    (hfront : a.front = some n) : nd.lk.remoteMode ≠ .none := by
  cases h.phase with
  | idle hi => exact absurd hq hi.unqueued
  | fetching ha hp =>
    cases hp with
    | served hg => exact absurd hq hg.unqueued
    | waiting _ _ hholds =>
      intro hmode
      rw [hmode] at hholds
      obtain ⟨-, r, rs, hqueue, hne⟩ := hholds hn
      simp [front, hqueue, hne] at hfront

namespace NewestInv

theorem receive (h : NewestInv nd) {msgs : List (DirMsg N)}
    (hmsgs : ∀ g ∈ msgs.filterMap (successFor n), g.isNewest = true → nd.lk.remoteMode ≠ .none) :
    NewestInv (nd.receive n msgs) := by
  rintro (⟨g, hg, hnew⟩ | hs)
  · rcases List.mem_append.1 hg with hg | hg
    · exact h (.inl ⟨g, hg, hnew⟩)
    · exact hmsgs g hg hnew
  · exact h (.inr hs)

end NewestInv

theorem newest_dirStep (h : ∀ k, NewestInv (s.nodes k)) (hlock : LockInv s) (hs : DirStep s act s')
    (k : NodeId N) : NewestInv (s'.nodes k) := by
  have heffect := hs.effect hlock k
  generalize s'.nodes k = nd at heffect ⊢
  cases heffect with
  | message _ newest =>
    refine (h k).receive fun g hg hnew => ?_
    obtain ⟨hmem, hq, hfront⟩ := newest g hg hnew
    exact (hlock.node k).mode_of_front hmem hq hfront
  | @answered f stage msgs _ _ _ _ none_granted =>
    have hset : NewestInv ((s.nodes k).setStage f stage) := h k
    exact hset.receive (by simp [none_granted])
  | @unlocked u msgs mem _ _ none_newest =>
    have hset : NewestInv { s.nodes k with
        unlocks := { u with served := true } :: (s.nodes k).unlocks.erase u } := h k
    refine hset.receive fun g hg hnew => ?_
    simp [none_newest g hg] at hnew
  | evicted | refused => exact h k

theorem newest_step [DecidableEq α] (hN : N < EXCLUSIVE_LOCKED) (h : ∀ k, NewestInv (s.nodes k))
    (hlock : LockInv s) (hs : Step s act s') (k : NodeId N) : NewestInv (s'.nodes k) := by
  have hset : ∀ {n : NodeId N} {nd : Node N α}, NewestInv nd →
      NewestInv ((s.setNode n nd).nodes k) := fun hnd =>
    forall_setNode (P := fun _ nd => NewestInv nd) h hnd k
  have hsent : ∀ {n : NodeId N} {dest : Option (NodeId N)} {nd : Node N α}, NewestInv nd →
      NewestInv (((s.sent n dest).setNode n nd).nodes k) := fun hnd =>
    forall_setNode (P := fun _ nd => NewestInv nd)
      (forall_sent h fun d _ _ _ => h d) hnd k
  have hdir := hlock.dirStep_of_step hN hs
  cases hs with
  | lockLocalS | lockAskS | lockLocalX | lockAskX | notifyPush | readStorage | gotPush
  | takePushList | write | writeUnlogged | releaseS | releaseX | releaseKeep | pendingKeep
    | unlockReturn | pushArrive
  | pushNotify | beginEvict | evictLost | evictNone | evictAsk | evictReplace | endEvict =>
    exact hset (h _)
  | dirLock | dirUnlock | dirEvict => exact newest_dirStep h hlock (hdir rfl) k
  | @gotLock n f mem stage _ success =>
    obtain ⟨-, hnil⟩ := (hlock.node n).owed_of_success mem stage success
    refine hset ?_
    rintro (⟨g, hg, -⟩ | ⟨hs, -⟩)
    · simp [Node.setStage, hnil] at hg
    · cases hs
  | pushNext _ _ buf =>
    rw [pushed_eq_sent buf]
    exact hsent (h _)
  | fetchDone =>
    refine hset fun _ => ?_
    split <;> exact LockMode.noConfusion
  | releasePush | pendingGive => exact hsent (h _)
  | @releaseEnd n r b mem | @releaseUnlock n r b mem =>
    -- no thread asks the directory while the page is in use
    have hg := (hlock.node n).phase.not_granting_of_release mem
    have hi := (hlock.node n).idle hg
    obtain ⟨-, -, hs, -⟩ := unlock_frame r b (s.nodes n).lk
    refine hset ?_
    rintro (⟨g, hmem, -⟩ | ⟨hsr, -⟩)
    · simp [hi.grants] at hmem
    · exact absurd (hs.symm.trans hsr) (by simp [hi.success])
  | @pending n p lk k mem _ _ _ case =>
    have hframe := pendingCase_frame case
    refine hset fun htold => ?_
    have htold' : (s.nodes n).ToldNewest := by
      rcases htold with hg | ⟨hs, hw⟩
      · exact .inl hg
      · exact .inr ⟨hframe.2.2.2.1 ▸ hs, hframe.2.2.2.2 ▸ hw⟩
    obtain ⟨f, ha, hg⟩ := (hlock.node n).granted_of_toldNewest htold'
    have hmode := h n htold'
    cases case with
    | unused hgr | used hgr => simp [ha.granting] at hgr
    | granting => exact hmode
    | upgrading _ hm _ hx =>
      -- the Pending request is for the exclusive lock that the node has just been granted
      have hfx : f.x = true := by
        rcases ha.mode with hnone | ⟨-, hfx⟩
        · exact absurd hnone hmode
        · exact hfx
      have hexcl := (hlock.node n).pending_excl p mem
      rw [hg.excl, hfx, hx] at hexcl
      cases hexcl
  | @lockSuccess n g mem =>
    refine hset ?_
    rintro (⟨g', hg', hnew⟩ | ⟨-, hw⟩)
    · exact h n (.inl ⟨g', List.mem_of_mem_erase hg', hnew⟩)
    · exact h n (.inl ⟨g, mem, by simpa [LockSuccessRequest.notify] using hw⟩)
  | @evictDone n mem =>
    have hi := (hlock.node n).idle_of_evict mem
    exact hset fun htold => absurd htold hi.not_toldNewest

/-- What has been shown about the messages and calls in flight. -/
structure TransferInv (s : State N α) : Prop extends ProtocolInv s where
  givenUp : GivenUp s
  newest : ∀ k, NewestInv (s.nodes k)

theorem transferInv_of_run [DecidableEq α] {base : Page α} (hN : N < EXCLUSIVE_LOCKED)
    (hallowed : ∀ s a, allowed s a → a.KeepsVictim)
    (run : Run State.step allowed (State.init base) s) : TransferInv s := by
  have hinit : ∀ k, NewestInv ((State.init base : State N α).nodes k) := by
    intro k htold
    rcases htold with ⟨g, hg, -⟩ | ⟨hs, -⟩
    · cases hg
    · cases hs
  have hknown : ∀ {s}, Run State.step allowed (State.init base) s → ProtocolInv s :=
    protocolInv_of_run hN hallowed
  exact {
    hknown run with
    givenUp := run.invariant_under (P := GivenUp) hknown (givenUp_init base)
      fun hq _ h _ taken => h.step hN hq (step_cases taken)
    newest := run.invariant_under (P := fun s => ∀ k, NewestInv (s.nodes k)) hknown hinit
      fun hq _ h _ taken => newest_step hN h hq.lock (step_cases taken) }

end LazyRelease
