import HybridCloud.LazyRelease.Proofs.ExactlyOnce

/-!
# Every holder is asked for the page

While a node waits for the page, the directory has asked every other holder for it, and no holder
forgets this before it gives the page up (`AskedInv.asked`). So as long as a writer uses the page no
page is on its way to any node (`PushInv.inbound_of_writer`).
-/

namespace LazyRelease

open GPLM Outcome Function

variable {N : Nat} {α : Type} {s s' : State N α} {n : NodeId N} {nd nd' : Node N α}
  {a b : AbsDirectory N}

/-- The node remembers that it has been asked for the page, and to whom it has to push it. -/
structure AskedInv (a : AbsDirectory N) (n : NodeId N) (nd : Node N α) : Prop where
  asked : Pended a n → 0 < nd.duties
  /-- A release that keeps the page is not the last one of a page that is asked for. -/
  release_keeps : ∀ r ∈ nd.releases, r.unlockRemote = 0 → nd.lk.isPending = true →
    r.x = false ∧ nd.lk.lock ≠ 1
  pending_dest : a.excl = true → ∀ p ∈ nd.pendings, p.dest = a.front
  handler_dest : a.excl = true → ∀ p ∈ nd.handlers, p.dest = a.front
  /-- As long as a writer has not called its release, `dest_node_id` is set. -/
  deferred_dest : a.excl = true → nd.lk.isPending = true → nd.handlers = [] → nd.releases = [] →
    nd.lk.lock = EXCLUSIVE_LOCKED → nd.lk.destNodeId = a.front

theorem NodeInv.unasked (h : NodeInv a n nd) (hd : DestInv nd) (hnp : ¬ Pended a n) :
    nd.pendings = [] ∧ nd.handlers = [] ∧ nd.lk.isPending = false := by
  have h0 := duties_eq_zero h hnp
  simp only [Node.duties, Node.giving] at h0
  have hpend : nd.lk.isPending = false := by
    cases hp : nd.lk.isPending with
    | false => rfl
    | true =>
      rw [hp, Bool.toNat_true] at h0
      omega
  refine ⟨List.length_eq_zero_iff.1 (by omega), List.eq_nil_iff_forall_not_mem.2 fun p hp => ?_,
    hpend⟩
  have hzero : nd.handlers.countP (fun p => decide (0 < p.unlockRemote)) = 0 := by omega
  have hkeeps : p.unlockRemote = 0 := by simpa using List.countP_eq_zero.1 hzero p hp
  simp [hd.handler_pending p hp hkeeps] at hpend

namespace AskedInv

theorem of_not_pended (h : NodeInv a n nd) (hd : DestInv nd) (hnp : ¬ Pended a n) :
    AskedInv a n nd := by
  obtain ⟨hp, hh, hi⟩ := h.unasked hd hnp
  exact ⟨fun hpd => absurd hpd hnp, by simp [hi], by simp [hp], by simp [hh], by simp [hi]⟩

section

variable (h : AskedInv a n nd)
include h

theorem frame (hp : Pended b n → Pended a n)
    (hx : b.excl = true → a.excl = true ∧ b.front = a.front) : AskedInv b n nd where
  asked hpd := h.asked (hp hpd)
  release_keeps := h.release_keeps
  pending_dest hb p hp := by rw [(hx hb).2]; exact h.pending_dest (hx hb).1 p hp
  handler_dest hb p hp := by rw [(hx hb).2]; exact h.handler_dest (hx hb).1 p hp
  deferred_dest hb := by rw [(hx hb).2]; exact h.deferred_dest (hx hb).1

theorem release {r : Release}
    (hkeeps : r.unlockRemote = 0 → nd.lk.isPending = true → r.x = false ∧ nd.lk.lock ≠ 1) :
    ∀ q ∈ r :: nd.releases, q.unlockRemote = 0 → nd.lk.isPending = true →
      q.x = false ∧ nd.lk.lock ≠ 1 := by
  intro q hq
  rcases List.mem_cons.1 hq with rfl | hq
  · exact hkeeps
  · exact h.release_keeps q hq

theorem releaseStage {r : Release} (mem : r ∈ nd.releases) (b : Bool) :
    AskedInv a n
      { nd with releases := { r with pushed := some b } :: nd.releases.erase r } := by
  refine { h with release_keeps := fun q hq hk => ?_, deferred_dest := fun _ _ _ hnil => nomatch hnil }
  rcases List.mem_cons.1 hq with rfl | hq
  · exact h.release_keeps r mem hk
  · exact h.release_keeps q (List.mem_of_mem_erase hq) hk

/-- A release ends. If it keeps the page, then so do the releases that are still to come; otherwise
the node is about to tell the directory. -/
theorem unlock (hnode : NodeInv a n nd) (hm : MutexInv nd) {r : Release}
    (mem : r ∈ nd.releases) {lk : LRLocalPageLock N} (hlk : r.Unlocked nd.lk lk)
    (hnd : nd' = { nd with lk := nd'.lk, releases := nd.releases.erase r, unlocks := nd'.unlocks })
    (hi : nd'.lk.isPending = lk.isPending) (hl : nd'.lk.lock = lk.lock)
    (hgive : r.unlockRemote ≠ 0 → 0 < nd'.giving)
    (hkeep : r.unlockRemote = 0 → nd'.giving = nd.giving) : AskedInv a n nd' := by
  obtain ⟨hrel, hhand, -⟩ := hm.of_release mem
  have hg := hnode.phase.not_granting_of_release mem
  have husers := (hnode.phase.idle_of_not_granting hg).1.users
  have hsame : nd'.pendings = nd.pendings ∧ nd'.handlers = [] ∧ nd'.releases = [] := by
    rw [hnd, hrel, List.erase_cons_head]
    exact ⟨rfl, hhand, rfl⟩
  obtain ⟨hp, hh, hr⟩ := hsame
  refine ⟨fun hpd => ?_, by simp [hr], by rw [hp]; exact h.pending_dest, by simp [hh], ?_⟩
  · unfold Node.duties
    by_cases hk : r.unlockRemote = 0
    · have hpos := h.asked hpd
      have hkept : nd'.lk.isPending = nd.lk.isPending := by
        rw [hi, hlk.pending, hlk.lock]
        cases hpend : nd.lk.isPending with
        | false => rfl
        | true =>
          obtain ⟨hx, h1⟩ := h.release_keeps r mem hk hpend
          have h0 := husers.lock_ne_zero mem
          rw [hx, if_neg Bool.false_ne_true]
          simp only [Bool.true_and, decide_eq_true_eq]
          omega
      rw [hp, hkept, hkeep hk]
      exact hpos
    · have hpos := hgive hk
      omega
  · intro _ _ _ _ hlock
    rw [hl, hlk.lock] at hlock
    cases hx : r.x with
    | true => simp [hx, EXCLUSIVE_LOCKED] at hlock
    | false =>
      obtain ⟨hlt, -⟩ := husers.of_shared_release mem hx
      rw [hx, if_neg Bool.false_ne_true] at hlock
      omega

theorem pending {p : PendingRequest N} {lk : LRLocalPageLock N} {k : Nat}
    (mem : p ∈ nd.pendings) (case : nd.lk.PendingCase p.xpending lk k) (hm : MutexInv nd)
    (free : nd.lk.mutex.held = false) :
    AskedInv a n { nd with
      lk := lk, pendings := nd.pendings.erase p, handlers := ⟨k, p.dest⟩ :: nd.handlers } := by
  obtain ⟨hrel, hhand, -⟩ := hm.releases_of_free free
  refine ⟨fun _ => ?_, by simp [hrel], ?_, ?_, ?_⟩
  · have hcase : 0 < k ∨ lk.isPending = true := by
      cases case with
      | unused _ _ _ hk => exact .inl hk
      | used => exact .inr rfl
      | upgrading => exact .inl Nat.one_pos
      | granting => exact .inr rfl
    simp only [Node.duties, Node.giving, List.countP_cons]
    rcases hcase with hk | hk
    · simp only [hk, decide_true, if_true]
      omega
    · rw [hk, Bool.toNat_true]
      omega
  · intro hx q hq
    exact h.pending_dest hx q (List.mem_of_mem_erase hq)
  · intro hx q hq
    rw [hhand, List.mem_singleton] at hq
    rw [hq]
    exact h.pending_dest hx p mem
  · intro _ _ hnil
    cases hnil

theorem pendingGive (hnode : NodeInv a n nd) (hm : MutexInv nd)
    {p : PendingHandler N} (mem : p ∈ nd.handlers) (gives : 0 < p.unlockRemote) :
    AskedInv a n { nd with
      buffer := none, handlers := nd.handlers.erase p
      unlocks := ⟨false, false⟩ :: nd.unlocks } := by
  obtain ⟨hrel, hhand, -⟩ := hm.of_handler mem
  refine ⟨fun _ => ?_, by simp [hrel], h.pending_dest, by simp [hhand], ?_⟩
  · simp only [Node.duties, Node.giving, List.countP_cons, Bool.not_false, if_true]
    omega
  · intro _ hpend
    have hle := hnode.duties_le
    have hone : nd.handlers.countP (fun p => decide (0 < p.unlockRemote)) = 1 := by
      simp [hhand, gives]
    have hpend' : nd.lk.isPending = true := hpend
    rw [Node.duties, Node.giving, hpend', Bool.toNat_true] at hle
    omega

theorem pendingKeep (hd : DestInv nd) (hm : MutexInv nd)
    {p : PendingHandler N} (mem : p ∈ nd.handlers) (keeps : p.unlockRemote = 0)
    {lk : LRLocalPageLock N} (hi : lk.isPending = nd.lk.isPending)
    (hdest : lk.destNodeId = if p.dest.isSome then p.dest else nd.lk.destNodeId) :
    AskedInv a n { nd with lk := lk, handlers := nd.handlers.erase p } := by
  obtain ⟨hrel, hhand, -⟩ := hm.of_handler mem
  refine ⟨fun hpd => ?_, by simp [hrel], h.pending_dest, by simp [hhand], ?_⟩
  · have hpend := hd.handler_pending p mem keeps
    simp only [Node.duties, hi, hpend, Bool.toNat_true]
    omega
  · intro hx _ _ _ _
    have hnone := hd.handler_dest p mem
    rw [hdest, ← h.handler_dest hx p mem, hnone]
    cases p.dest <;> rfl

end

/-- A round starts: the directory asks every holder but the one it works for. -/
theorem of_round (hwf : b.WF) (hp : nd.pendings = []) (hh : nd.handlers = [])
    (hi : nd.lk.isPending = false) : AskedInv b n (nd.receive n b.pendingMsgs) := by
  refine ⟨?_, ?_, ?_, ?_, ?_⟩
  · rintro ⟨hn, r, rs, hq, hr⟩
    simp only [Node.duties, Node.receive, filterMap_pendingFor_pendingMsgs hwf.holders_nodup hq,
      if_pos (show n ∈ b.holders ∧ r.nodeId ≠ n from ⟨hn, hr⟩), List.length_append,
      List.length_singleton]
    omega
  · intro r _ _ hpend
    have hpend' : nd.lk.isPending = true := hpend
    simp [hi] at hpend'
  · intro hx p hmem
    cases hq : b.queue with
    | nil => simp [Node.receive, hp, AbsDirectory.pendingMsgs, hq] at hmem
    | cons r rs =>
      simp only [Node.receive, hp, List.nil_append,
        filterMap_pendingFor_pendingMsgs hwf.holders_nodup hq] at hmem
      by_cases hc : n ∈ b.holders ∧ r.nodeId ≠ n
      · rw [if_pos hc, List.mem_singleton] at hmem
        obtain ⟨m, hm⟩ := hwf.excl_single hx
        obtain rfl : n = m := by simpa [hm] using hc.1
        rw [hmem]
        simp [AbsDirectory.pusher, hx, hm, AbsDirectory.front, hq]
      · rw [if_neg hc] at hmem
        cases hmem
  · intro _ p hmem
    have hmem' : p ∈ nd.handlers := hmem
    simp [hh] at hmem'
  · intro _ hpend
    have hpend' : nd.lk.isPending = true := hpend
    simp [hi] at hpend'

end AskedInv

/-- No holder forgets that it has been asked for the page. -/
def Asked (s : State N α) : Prop := ∀ n, AskedInv s.dir.view n (s.nodes n)

theorem Asked.setNode (h : Asked s) (hnd : AskedInv s.dir.view n nd) (k : NodeId N) :
    AskedInv s.dir.view k ((s.setNode n nd).nodes k) :=
  forall_setNode (P := AskedInv s.dir.view) h hnd k

theorem Asked.sent_setNode (h : Asked s) {dest : Option (NodeId N)}
    (hnd : AskedInv s.dir.view n nd) : Asked ((s.sent n dest).setNode n nd) := by
  intro k
  have hsent : ∀ k, AskedInv s.dir.view k ((s.sent n dest).nodes k) :=
    forall_sent h fun d _ _ _ => { h d with }
  show AskedInv (s.sent n dest).dir.view k _
  rw [sent_dir]
  exact forall_setNode hsent hnd k

theorem Asked.enqueue (h : Asked s) (hlock : LockInv s) (hd : Deferred s) {f : Fetch N}
    {d : Directory N} (sound : d.Sound) (view : d.view = (s.dir.view.enqueue ⟨n, f.x⟩).1) :
    Asked (s.afterDir d (s.dir.view.enqueue ⟨n, f.x⟩).2 n
      ((s.nodes n).setStage f (.answered .waitLockRelease))) := by
  intro k
  show AskedInv d.view k (Node.receive _ k _)
  have hset : ∀ k, AskedInv s.dir.view k (update s.nodes n
      ((s.nodes n).setStage f (.answered .waitLockRelease)) k) :=
    forall_setNode h { h n with }
  cases hq : s.dir.view.queue with
  | nil =>
    obtain ⟨hp, hh, hi⟩ := (hlock.node k).unasked (hd k) (not_pended_of_queue_nil hq)
    have hmsgs : (s.dir.view.enqueue ⟨n, f.x⟩).2 = d.view.pendingMsgs := by
      rw [view]
      simp [AbsDirectory.enqueue, hq]
    rw [hmsgs]
    have hsame : ∀ nd' : Node N α, nd' = update s.nodes n
        ((s.nodes n).setStage f (.answered .waitLockRelease)) k →
        nd'.pendings = [] ∧ nd'.handlers = [] ∧ nd'.lk.isPending = false := by
      rintro _ rfl
      by_cases hk : k = n
      · subst hk
        rw [update_self]
        exact ⟨hp, hh, hi⟩
      · rw [update_of_ne hk]
        exact ⟨hp, hh, hi⟩
    obtain ⟨hp', hh', hi'⟩ := hsame _ rfl
    exact .of_round sound.wf hp' hh' hi'
  | cons r rs =>
    have hmsgs : (s.dir.view.enqueue ⟨n, f.x⟩).2 = [] := by
      simp [AbsDirectory.enqueue, hq]
    rw [hmsgs, receive_nil, view]
    refine (hset k).frame ?_ fun hx => ⟨hx, ?_⟩
    · rintro ⟨hk, r', rs', hq', hr'⟩
      simp only [AbsDirectory.enqueue, hq, List.cons_append, List.cons.injEq] at hq'
      exact ⟨hk, r, rs, hq, hq'.1 ▸ hr'⟩
    · simp [AbsDirectory.enqueue, AbsDirectory.front, hq]

theorem Asked.dirStep (h : Asked s) (hlock : LockInv s) (hd : Deferred s) (hlock' : LockInv s')
    (hd' : Deferred s') {act : Action N α} (hs : DirStep s act s') : Asked s' := by
  -- nobody is asked for the page while nobody waits
  have hnil : s'.dir.view.queue = [] → Asked s' := fun hq k =>
    .of_not_pended (hlock'.node k) (hd' k) (not_pended_of_queue_nil hq)
  cases hs with
  | enqueue mem stage unqueued sound view => exact h.enqueue hlock hd sound view
  | storage _ _ queue _ _ view | join _ _ _ queue _ _ _ _ view | upgrade _ _ _ queue _ _ _ view
  | evict _ _ queue _ view => exact hnil ((congrArg AbsDirectory.queue view).trans queue)
  | @leave n u d mem served pended sound view =>
    intro k
    by_cases hk : k = n
    · subst hk
      refine .of_not_pended (hlock'.node k) (hd' k) ?_
      rintro ⟨hmem, -⟩
      have hmem' : k ∈ d.view.holders := hmem
      simp [view, AbsDirectory.leave, AbsDirectory.mem_rest] at hmem'
    · have hnode : (s.afterDir d [] n { s.nodes n with
          unlocks := { u with served := true } :: (s.nodes n).unlocks.erase u }).nodes k =
          s.nodes k := by
        simp [State.afterDir, receive_nil, hk]
      show AskedInv d.view k _
      rw [hnode, view]
      refine (h k).frame ?_ fun hx => ?_
      · rintro ⟨hmem, r, rs, hq, hr⟩
        exact ⟨(AbsDirectory.mem_rest.1 hmem).1, r, rs, hq, hr⟩
      · simp [AbsDirectory.leave] at hx
  | @grant n first u d x others queue mem served pended sound view front rest granted kept =>
    intro k
    have hleft := hlock.node_left mem served pended k
    have hn : DestInv { s.nodes n with
        unlocks := { u with served := true } :: (s.nodes n).unlocks.erase u } :=
      { hd n with }
    have hdest := forall_setNode (n := n) (P := fun _ nd => DestInv nd) hd hn k
    obtain ⟨hp, hh, hi⟩ := hleft.unasked hdest (not_pended_leave front rest)
    have hmsgs : ((s.dir.view.leave n).grant x first others queue).2 =
        AbsDirectory.successMsgs x (first ∈ (s.dir.view.leave n).holders) first others ++
          d.view.pendingMsgs := by
      rw [view]
      rfl
    show AskedInv d.view k (Node.receive _ k _)
    rw [hmsgs, receive_append]
    refine .of_round sound.wf ?_ hh hi
    simp [Node.receive, hp, filterMap_pendingFor_successMsgs]
  | @refuse n lsn d mem sound view =>
    intro k
    rw [view]
    have hn : AskedInv s.dir.view n { s.nodes n with
        evicts := .ending :: (s.nodes n).evicts.erase (.asking lsn) } :=
      { h n with }
    exact h.setNode hn k

theorem Asked.step [DecidableEq α] (hN : N < EXCLUSIVE_LOCKED) (h : Asked s) (hlock : LockInv s)
    (hm : Disciplined s) (hd : Deferred s) {act : Action N α} (hs : Step s act s') : Asked s' := by
  have hlock' := hlock.step hN hs
  have hd' := hd.step hlock hm hs
  have hdir := hlock.dirStep_of_step hN hs
  cases hs with
  | @lockLocalS n quiet | @lockAskS n quiet | @lockLocalX n quiet | @lockAskX n quiet =>
    refine h.setNode { h n with
      release_keeps := fun _ _ _ hpend => ?_, deferred_dest := fun _ hpend => ?_ } <;>
    simp [quiet.not_pending] at hpend
  | dirLock | dirUnlock | dirEvict => exact h.dirStep hlock hd hlock' hd' (hdir rfl)
  | notifyPush | readStorage | gotPush | gotLock | takePushList | fetchDone | write | writeUnlogged
  | pushArrive | pushNotify | lockSuccess | beginEvict | evictLost | evictNone | evictAsk
  | evictReplace | evictDone | endEvict =>
    refine fun k => h.setNode ?_ k
    exact { h _ with }
  | pushNext _ _ buf =>
    rw [pushed_eq_sent buf]
    exact h.sent_setNode { h _ with }
  | @releaseS n =>
    refine h.setNode { h n with
      release_keeps := (h n).release fun hk hpend => ⟨rfl, fun h1 => ?_⟩
      deferred_dest := fun _ _ _ hnil => by cases hnil }
    simp only [LRLocalPageLock.sharedUnlockType, h1, hpend, and_self, if_true] at hk
    split at hk <;> cases hk
  | @releaseX n =>
    refine h.setNode { h n with
      release_keeps := (h n).release fun hk hpend => ?_
      deferred_dest := fun _ _ _ hnil => by cases hnil }
    simp [hpend] at hk
  | releaseKeep mem => exact h.setNode ((h _).releaseStage mem _)
  | releasePush mem => exact h.sent_setNode ((h _).releaseStage mem _)
  | @releaseEnd n r b mem pushed keeps =>
    exact h.setNode ((h n).unlock (hlock.node n) (hm n) mem (r.unlocked_unlock b _) rfl rfl rfl
      (fun hne => absurd keeps hne) fun _ => rfl)
  | @releaseUnlock n r b mem pushed gives =>
    refine h.setNode ((h n).unlock (hlock.node n) (hm n) mem (r.unlocked_unlock b _) rfl rfl rfl
      (fun _ => ?_) fun h0 => absurd h0 gives)
    simp only [Node.giving, List.countP_cons, Bool.not_false, if_true]
    omega
  | @pending n p lk k mem _ free _ case => exact h.setNode ((h n).pending mem case (hm n) free)
  | @pendingGive n p mem gives =>
    exact h.sent_setNode ((h n).pendingGive (hlock.node n) (hm n) mem gives)
  | @pendingKeep n p mem keeps =>
    exact h.setNode ((h n).pendingKeep (hd n) (hm n) mem keeps rfl rfl)
  | @unlockReturn n u mem served =>
    refine h.setNode { h n with asked := fun hpd => ?_ }
    have hpos := (h n).asked hpd
    have := Counting.countP_erase_add (fun u : UnlockCall => !u.served) mem
    simp only [served, Bool.not_true, Bool.false_eq_true, if_false] at this
    have hpend : (s.nodes n).lk.unlockMtx.isPending = (s.nodes n).lk.isPending := rfl
    simp only [Node.duties, Node.giving, hpend] at hpos ⊢
    omega

theorem asked_init (hN : N < EXCLUSIVE_LOCKED) (base : Page α) :
    Asked (State.init base : State N α) := by
  intro n
  have hlock := lockInv_init (N := N) hN base
  refine .of_not_pended (hlock.node n) ((pushInv_init base).deferred n) ?_
  exact not_pended_of_queue_nil rfl

theorem asked_of_run [DecidableEq α] {base : Page α} {allowed : State N α → Action N α → Prop}
    (hN : N < EXCLUSIVE_LOCKED) (hallowed : ∀ s a, allowed s a → a.KeepsVictim)
    (run : Run State.step allowed (State.init base) s) : Asked s :=
  run.invariant_under (Q := fun s => LockInv s ∧ Disciplined s ∧ Deferred s)
    (fun run => ⟨lockInv_of_run hN run, disciplined_of_run hallowed run,
      (pushInv_of_run hN hallowed run).deferred⟩) (asked_init hN base)
    fun hq _ h _ taken => h.step hN hq.1 hq.2.1 hq.2.2 (step_cases taken)

/-- A writer's node still has to push the page to the node at the front of the queue. -/
theorem AskedInv.outbound_of_writer (h : AskedInv s.dir.view n (s.nodes n)) (hlock : LockInv s)
    (hw : 0 < (s.nodes n).writers) {k : NodeId N} (hne : k ≠ n)
    (hfront : s.dir.view.front = some k) : 0 < (s.nodes n).outbound k := by
  obtain ⟨-, hl, hmode, hrel, -, hholders, hx⟩ := hlock.of_writer hw
  have hpended : Pended s.dir.view n := by
    cases hq : s.dir.view.queue with
    | nil => simp [AbsDirectory.front, hq] at hfront
    | cons r rs =>
      have hr : r.nodeId = k := by simpa [AbsDirectory.front, hq] using hfront
      exact ⟨by simp [hholders], r, rs, hq, hr ▸ hne⟩
  have hgive : (s.nodes n).giving = 0 := by
    by_contra hg
    simp [(hlock.node n).giving_mode (Nat.pos_of_ne_zero hg)] at hmode
  have hduties := h.asked hpended
  rw [Node.duties, hgive] at hduties
  unfold Node.outbound
  by_cases hp : (s.nodes n).pendings = []
  · have hpend : (s.nodes n).lk.isPending = true := by
      cases hpd : (s.nodes n).lk.isPending with
      | true => rfl
      | false => simp [hp, hpd] at hduties
    by_cases hh : (s.nodes n).handlers = []
    · have hdefers : (s.nodes n).defers k :=
        ⟨(h.deferred_dest hx hpend hh hrel hl).trans hfront, by simp [hrel]⟩
      rw [if_pos hdefers]
      omega
    · obtain ⟨p, hmem⟩ := List.exists_mem_of_ne_nil _ hh
      have hpos : 0 < (s.nodes n).handlers.countP (fun p => decide (p.dest = some k)) :=
        List.countP_pos_iff.2 ⟨p, hmem, by simp [(h.handler_dest hx p hmem).trans hfront]⟩
      omega
  · obtain ⟨p, hmem⟩ := List.exists_mem_of_ne_nil _ hp
    have hpos : 0 < (s.nodes n).pendings.countP (fun p => decide (p.dest = some k)) :=
      List.countP_pos_iff.2 ⟨p, hmem, by simp [(h.pending_dest hx p hmem).trans hfront]⟩
    omega

theorem PushInv.inbound_of_idle (h : PushInv s) (hi : Idle s.dir.view n (s.nodes n)) :
    (s.nodes n).inbound = 0 := by
  have hn := h.balanced n
  rw [owed_of_nil hi.fetches] at hn
  omega

/-- A node that is entitled to a push holds the page, or is the next one to get it. -/
theorem NodeInv.of_owed (h : NodeInv a n nd) (hpos : 0 < nd.owed a n) :
    n ∈ a.holders ∧ nd.giving = 0 ∨ n ∉ a.holders ∧ a.front = some n := by
  cases h.phase with
  | idle hi => simp [owed_of_nil hi.fetches] at hpos
  | @fetching f ha hp =>
    rw [owed_of_asking ha.fetches] at hpos
    cases hp with
    | served hg _ _ kept => exact .inl ⟨hg.holder, kept⟩
    | waiting _ _ _ hst =>
      rcases hst with ⟨hst, -⟩ | ⟨hst, hq⟩
      · rw [fetchOwed_of_stage hst] at hpos
        simp [Fetch.owed] at hpos
      · rw [fetchOwed_of_stage hst] at hpos
        simp only [Fetch.owed, mem_queued.2 ⟨_, hq⟩, if_true] at hpos
        by_cases hf : a.front = some n ∧ n ∉ a.holders
        · exact .inr ⟨hf.2, hf.1⟩
        · simp [hf] at hpos

theorem PushInv.inbound_of_writer (h : PushInv s) (hlock : LockInv s) (hask : Asked s)
    (hw : 0 < (s.nodes n).writers) (k : NodeId N) : (s.nodes k).inbound = 0 := by
  obtain ⟨hi, -, -, -, -, hholders, -⟩ := hlock.of_writer hw
  by_cases hk : k = n
  · subst hk
    exact h.inbound_of_idle hi
  · by_contra hin
    have hbal := h.balanced k
    rcases (hlock.node k).of_owed (by omega) with ⟨hmem, -⟩ | ⟨-, hfront⟩
    · rw [hholders, List.mem_singleton] at hmem
      exact hk hmem
    · -- the one push that the node is entitled to is still to be made
      have hout := (hask n).outbound_of_writer hlock hw hk hfront
      have hle : (s.nodes n).outbound k ≤ s.duty k :=
        Finset.single_le_sum (f := fun m => (s.nodes m).outbound k)
          (fun _ _ => Nat.zero_le _) (Finset.mem_univ n)
      have hone := (hlock.node k).owed_le_one
      omega

theorem PushInv.inbound_of_giving (h : PushInv s) (hlock : LockInv s)
    (hg : 0 < (s.nodes n).giving) : (s.nodes n).inbound = 0 := by
  by_contra hin
  have hbal := h.balanced n
  rcases (hlock.node n).of_owed (by omega) with ⟨-, hnone⟩ | ⟨hmem, -⟩
  · omega
  · have hpended := (hlock.node n).duties_pended (by rw [Node.duties]; omega)
    exact hmem hpended.1

end LazyRelease
