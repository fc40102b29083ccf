import HybridCloud.LazyRelease.Proofs.DirectorySteps

/-!
# Mutual exclusion of the lazy-release protocol

A node whose lock word says "writer" and that does not ask the directory any more is the directory's
exclusive holder, and one whose lock word is not zero is a holder; so no two nodes use the page at
the same time if one of them writes.
-/

namespace LazyRelease

open GPLM Outcome AbsDirectory

variable {N : Nat} {α : Type} {s s' : State N α} {n : NodeId N}

theorem LockInv.setNode (h : LockInv s) {nd : Node N α} (hnd : NodeInv s.dir.view n nd) :
    LockInv (s.setNode n nd) := by
  refine ⟨h.sound, fun k => ?_⟩
  by_cases hk : k = n
  · subst hk
    simpa [State.setNode] using hnd
  · simpa [State.setNode, Function.update, hk] using h.node k

theorem LockInv.pushed (h : LockInv s) (d : NodeId N) (page : Page α) :
    LockInv (s.pushed d page) :=
  h.setNode ((h.node d).congr rfl rfl)

theorem LockInv.sent (h : LockInv s) (n : NodeId N) (dest : Option (NodeId N)) :
    LockInv (s.sent n dest) := by
  unfold State.sent
  split
  · exact h.pushed _ _
  · exact h

theorem sent_dir (s : State N α) (n : NodeId N) (dest : Option (NodeId N)) :
    (s.sent n dest).dir = s.dir := by
  unfold State.sent
  split <;> rfl

theorem LockInv.sent_setNode (h : LockInv s) {dest : Option (NodeId N)} {nd : Node N α}
    (hnd : NodeInv s.dir.view n nd) : LockInv ((s.sent n dest).setNode n nd) := by
  refine (h.sent n dest).setNode ?_
  rw [sent_dir]
  exact hnd

theorem LockInv.congr (h : LockInv s) (hdir : s'.dir = s.dir) (hnodes : s'.nodes = s.nodes) :
    LockInv s' := by
  refine ⟨hdir ▸ h.sound, fun k => ?_⟩
  rw [hdir, hnodes]
  exact h.node k

/-- A directory call keeps the lock invariant. -/
theorem LockInv.dirStep (h : LockInv s) {a : Action N α} (hs : DirStep s a s') : LockInv s' := by
  cases hs with
  | enqueue mem stage _ sound view => exact h.enqueue mem stage sound view
  | storage mem stage queue holders sound view =>
    refine h.grantedAtOnce mem stage sound queue ?_ (fun k hk => ?_) nofun nofun
    · rw [view]
      exact ⟨(h.asking mem stage).1, by simp, rfl⟩
    · rw [view]
      exact { queue := fun _ => Iff.rfl, holder := by simp [hk, holders], excl := by simp [holders]
              pended := fun hpd => absurd queue hpd.queue_ne_nil }
  | join mem stage reader queue excl unlisted newest sound view =>
    refine h.grantedAtOnce mem stage sound queue ?_ (fun k hk => ?_) nofun nofun
    · rw [view, reader]
      exact ⟨(h.asking mem stage).1, by simp, excl⟩
    · rw [view]
      exact { queue := fun _ => Iff.rfl, holder := by simp [hk], excl := fun _ => rfl
              pended := fun hpd => absurd queue hpd.queue_ne_nil }
  | upgrade mem stage writer queue excl holders sound view =>
    refine h.grantedAtOnce mem stage sound queue ?_ (fun k hk => ?_) nofun nofun
    · rw [view, writer]
      exact ⟨(h.asking mem stage).1, by simp [holders], rfl⟩
    · rw [view]
      exact { queue := fun _ => Iff.rfl, holder := Iff.rfl, excl := by simp [holders, hk]
              pended := fun hpd => absurd queue hpd.queue_ne_nil }
  | leave mem served pended sound view => exact h.leave mem served pended sound view
  | grant mem served pended sound view front rest granted kept =>
    exact h.grant mem served pended sound view front rest granted kept
  | evict mem holder queue sound view => exact h.evict mem holder queue sound view
  | @refuse n lsn d mem sound view =>
    refine ⟨sound, fun k => ?_⟩
    rw [view]
    exact (h.setNode ((h.node n).setEvict mem .ending rfl)).node k

/-- Every step keeps the lock invariant. -/
theorem LockInv.step [DecidableEq α] (hN : N < EXCLUSIVE_LOCKED) (h : LockInv s) {a : Action N α}
    (hs : Step s a s') : LockInv s' := by
  have hdir := h.dirStep_of_step hN hs
  cases hs with
  | lockLocalS quiet lt mode => exact h.setNode ((h.node _).lockLocalS quiet lt mode)
  | lockAskS quiet lt mode =>
    have hi := (h.node _).idle quiet.not_granting
    have h0 := hi.users.lock_eq_zero mode
    have := (h.node _).lockAsk quiet h0 false (.inl mode)
    exact h.setNode (by simpa [h0] using this)
  | lockLocalX quiet unused mode => exact h.setNode ((h.node _).lockLocalX quiet unused mode)
  | @lockAskX n quiet unused mode =>
    refine h.setNode ((h.node _).lockAsk quiet unused true ?_)
    cases hm : (s.nodes n).lk.remoteMode with
    | none => exact .inl rfl
    | shared => exact .inr ⟨rfl, rfl⟩
    | exclusive => exact absurd hm mode
  | dirLock | dirUnlock | dirEvict => exact h.dirStep (hdir rfl)
  | @notifyPush n m f page mem stage buf ne =>
    have hn : NodeInv s.dir.view n { (s.nodes n).setStage f (.answered (.pushFrom m)) with
        pushes := (s.nodes n).pushes ++ [page] } :=
      ((h.node n).setStage mem (by simp [stage]) (by simp [stage]) (.answered (.pushFrom m))
        nofun nofun).congr rfl rfl
    have h' := h.setNode hn
    obtain ⟨hd, hv⟩ := h.sound.notifyPushPageDone
    refine ⟨hd, fun k => ?_⟩
    exact h'.node k
  | readStorage mem stage | gotPush mem stage =>
    refine h.setNode (((h.node _).setStage mem ?_ ?_ (.pushing []) nofun nofun).congr rfl rfl) <;>
      simp [stage]
  | gotLock mem stage _ success => exact h.setNode ((h.node _).gotLock mem stage success)
  | @takePushList n f mem stage =>
    refine h.setNode (((h.node n).setStage mem ?_ ?_ (.pushing (s.nodes n).lk.pushList)
      nofun nofun).congr rfl rfl) <;> simp [stage]
  | pushNext mem stage =>
    refine (h.pushed _ _).setNode ((h.node _).setStage mem ?_ ?_ _ nofun nofun) <;> simp [stage]
  | fetchDone mem stage => exact h.setNode ((h.node _).fetchDone mem stage)
  | @write n | @writeUnlogged n =>
    have hn : ∀ buffer, NodeInv s.dir.view n { s.nodes n with buffer := buffer } := fun _ =>
      (h.node n).congr rfl rfl
    exact (h.setNode (hn _)).congr rfl rfl
  | releaseS reader _ _ not_x not_granting =>
    exact h.setNode ((h.node _).releaseS reader not_x not_granting rfl)
  | releaseX writer _ _ _ not_granting =>
    exact h.setNode ((h.node _).releaseX writer not_granting rfl)
  | releaseKeep mem => exact h.setNode ((h.node _).releaseStage mem _)
  | releasePush mem => exact h.sent_setNode ((h.node _).releaseStage mem _)
  | @releaseEnd n r b mem pushed keeps =>
    refine h.setNode (((h.node n).releaseUnlock mem (r.unlocked_unlock b _) ?_).congr rfl rfl)
    simp [keeps]
  | @releaseUnlock n r b mem pushed gives =>
    refine h.setNode ((h.node n).releaseUnlock mem (r.unlocked_unlock b _) ?_)
    simp [gives]
  | pending mem _ _ not_pending case => exact h.setNode ((h.node _).pending mem not_pending case)
  | @pendingGive n p mem gives =>
    refine h.sent_setNode (((h.node n).handOver ((s.nodes n).handlers.erase p)
      (⟨false, false⟩ :: (s.nodes n).unlocks) ?_).congr rfl rfl)
    have := Counting.countP_erase_add (fun p : PendingHandler N => decide (0 < p.unlockRemote)) mem
    simp only [gives, decide_true, ite_true] at this
    simp only [Node.giving, List.countP_cons, Bool.not_false, ite_true]
    omega
  | @pendingKeep n p mem keeps =>
    refine h.setNode (((h.node n).handOver ((s.nodes n).handlers.erase p) (s.nodes n).unlocks
      ?_).congr rfl rfl)
    have := Counting.countP_erase_add (fun p : PendingHandler N => decide (0 < p.unlockRemote)) mem
    simp only [keeps, Nat.lt_irrefl, decide_false, Bool.false_eq_true, ite_false] at this
    simp only [Node.giving]
    omega
  | @unlockReturn n u mem served =>
    refine h.setNode (((h.node n).handOver (s.nodes n).handlers ((s.nodes n).unlocks.erase u)
      ?_).congr rfl rfl)
    have := Counting.countP_erase_add (fun u : UnlockCall => !u.served) mem
    simp only [served, Bool.not_true, Bool.false_eq_true, ite_false] at this
    simp only [Node.giving]
    omega
  | pushArrive | pushNotify => exact h.setNode ((h.node _).congr rfl rfl)
  | lockSuccess mem => exact h.setNode ((h.node _).lockSuccess mem)
  | beginEvict quiet unused => exact h.setNode ((h.node _).beginEvict quiet unused)
  | evictLost mem => exact h.setNode (((h.node _).setEvict mem .ending rfl).congr rfl rfl)
  | evictNone mem => exact h.setNode ((h.node _).setEvict mem .ending rfl)
  | evictAsk mem => exact h.setNode ((h.node _).setEvict mem _ rfl)
  | evictReplace mem => exact h.setNode (((h.node _).setEvict mem .replaced rfl).congr rfl rfl)
  | evictDone mem => exact h.setNode ((h.node _).evictDone mem)
  | endEvict mem => exact h.setNode ((h.node _).endEvict mem)

theorem nodeInv_init (n : NodeId N) : NodeInv init n (Node.init : Node N α) where
  phase := .idle
    { fetches := rfl, granting := rfl, unqueued := by simp [init, queued]
      grants := rfl, success := rfl
      users := .inr ⟨by simp [Node.init, LRLocalPageLock.init, EXCLUSIVE_LOCKED], rfl, rfl,
        fun h => absurd rfl h⟩ }
    (by simp [Node.init, LRLocalPageLock.init, Holds, init])
  duties_le := by simp [Node.duties, Node.giving, Node.init, LRLocalPageLock.init]
  duties_pended := by simp [Node.duties, Node.giving, Node.init, LRLocalPageLock.init]
  pending_excl := by simp [Node.init]
  giving_mode := by simp [Node.giving, Node.init]
  release_pending := by simp [Node.init]
  evicts_length := rfl
  evicting_idle := by simp [Node.init, LRLocalPageLock.init]

theorem lockInv_init (hN : N < EXCLUSIVE_LOCKED) (base : Page α) :
    LockInv (State.init base : State N α) := by
  have hdir : (State.init base : State N α).dir = init.concrete .free .free :=
    concrete_init
  refine ⟨hdir ▸ Directory.sound_concrete hN init_wf rfl, fun n => ?_⟩
  exact nodeInv_init n

theorem LockInv.holder_of_used (h : LockInv s) (hg : (s.nodes n).lk.isGranting = false)
    (hl : (s.nodes n).lk.lock ≠ 0) : n ∈ s.dir.view.holders := by
  have hi := (h.node n).idle hg
  have hh := (h.node n).holds_of_quiet hg ((h.node n).not_evicting hl)
  exact hh.mem fun hm => hl (hi.users.lock_eq_zero hm)

theorem LockInv.excl_of_writer (h : LockInv s) (hg : (s.nodes n).lk.isGranting = false)
    (hl : (s.nodes n).lk.lock = EXCLUSIVE_LOCKED) : s.dir.view.holders = [n] := by
  have hl0 : (s.nodes n).lk.lock ≠ 0 := by simp [hl, EXCLUSIVE_LOCKED]
  have hn := h.holder_of_used hg hl0
  have hi := (h.node n).idle hg
  rcases hi.users with ⟨-, -, -, hm⟩ | ⟨hlt, -⟩
  · have hh := (h.node n).holds_of_quiet hg ((h.node n).not_evicting hl0)
    rw [hm] at hh
    obtain ⟨k, hk⟩ := h.sound.wf.excl_single hh.2
    rw [hk, List.mem_singleton] at hn
    rw [hk, hn]
  · omega

theorem LockInv.of_writer (h : LockInv s) (hw : 0 < (s.nodes n).writers) :
    Idle s.dir.view n (s.nodes n) ∧ (s.nodes n).lk.lock = EXCLUSIVE_LOCKED ∧
      (s.nodes n).lk.remoteMode = .exclusive ∧ (s.nodes n).releases = [] ∧
      (s.nodes n).evicts = [] ∧ s.dir.view.holders = [n] ∧ s.dir.view.excl = true := by
  cases (h.node n).phase with
  | fetching ha => simp [ha.writers] at hw
  | idle hi =>
    rcases id hi.users with ⟨hl, hx, hs, hmode⟩ | ⟨-, -, hx, -⟩
    · have hev := (h.node n).not_evicting (by simp [hl, EXCLUSIVE_LOCKED])
      have hholds := (h.node n).holds_of_quiet hi.granting hev
      rw [hmode] at hholds
      simp only [Node.exclusiveUsers, Node.sharedUsers] at hx hs
      have hlen := Counting.countP_add_countP_not (fun r : Release => r.x) (s.nodes n).releases
      exact ⟨hi, hl, hmode, List.length_eq_zero_iff.1 (by omega), (h.node n).evicts_nil hev,
        h.excl_of_writer hi.granting hl, hholds.2⟩
    · simp only [Node.exclusiveUsers] at hx
      omega

variable [DecidableEq α]

theorem lockInv_of_run (hN : N < EXCLUSIVE_LOCKED) {allowed : State N α → Action N α → Prop}
    {base : Page α} (run : Run State.step allowed (State.init base) s) : LockInv s :=
  run.invariant (lockInv_init hN base) fun h _ taken => h.step hN (step_cases taken)

end LazyRelease
