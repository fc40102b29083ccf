import HybridCloud.LazyRelease.Proofs.LockInvariant

/-!
# The nodes while the directory serves a call

When the directory serves a call, each node sees one of three things: nothing that concerns it
(`SameFor`), a request to give the page up (`NodeInv.pendingMsgs`), or the grant it has been waiting
for (`NodeInv.grant`), possibly with such a request right behind it.
-/

namespace LazyRelease

open GPLM Outcome Function AbsDirectory

variable {N : Nat} {α : Type} {a b : AbsDirectory N} {n : NodeId N} {nd : Node N α}

/-- A step of the directory, in terms of its view. -/
inductive DirStep (s : State N α) : Action N α → State N α → Prop where
  /-- A request has to wait. -/
  | enqueue {n : NodeId N} {f : Fetch N} {d : Directory N} (mem : f ∈ (s.nodes n).fetches)
      (stage : f.stage = .asking) (unqueued : n ∉ s.dir.view.queued) (sound : d.Sound)
      (view : d.view = (s.dir.view.enqueue ⟨n, f.x⟩).1)
      (free : s.dir.gl.mutex.held = false) (mutex : d.gl.mutex = s.dir.gl.mutex) :
      DirStep s (.dirLock n f) (s.afterDir d (s.dir.view.enqueue ⟨n, f.x⟩).2 n
        ((s.nodes n).setStage f (.answered .waitLockRelease)))
  /-- Nobody holds the page: it has to be read from storage. -/
  | storage {n : NodeId N} {f : Fetch N} {d : Directory N} (mem : f ∈ (s.nodes n).fetches)
      (stage : f.stage = .asking) (queue : s.dir.view.queue = [])
      (holders : s.dir.view.holders = []) (sound : d.Sound)
      (view : d.view = { s.dir.view with holders := [n], excl := f.x, newest := some n })
      (free : s.dir.gl.mutex.held = false) (mutex : d.gl.mutex = s.dir.gl.mutex) :
      DirStep s (.dirLock n f) (s.afterDir d [] n
        ((s.nodes n).setStage f (.answered (.storageFetch s.dir.view.lsn))))
  /-- A reader joins other readers, one of which is asked to push the page. -/
  | join {n m : NodeId N} {f : Fetch N} {d : Directory N} (mem : f ∈ (s.nodes n).fetches)
      (stage : f.stage = .asking) (reader : f.x = false) (queue : s.dir.view.queue = [])
      (excl : s.dir.view.excl = false) (unlisted : n ∉ s.dir.view.holders)
      (newest : m ∈ s.dir.view.holders) (sound : d.Sound)
      (view : d.view = { s.dir.view with holders := s.dir.view.holders ++ [n] })
      (free : s.dir.gl.mutex.held = false)
      (mutex : d.gl.mutex = { s.dir.gl.mutex with held := true }) :
      DirStep s (.dirLock n f) (s.afterDir d [] n ((s.nodes n).setStage f (.notifying m)))
  /-- The only reader becomes the writer. -/
  | upgrade {n : NodeId N} {f : Fetch N} {d : Directory N} (mem : f ∈ (s.nodes n).fetches)
      (stage : f.stage = .asking) (writer : f.x = true) (queue : s.dir.view.queue = [])
      (excl : s.dir.view.excl = false) (holders : s.dir.view.holders = [n]) (sound : d.Sound)
      (view : d.view = { s.dir.view with excl := true })
      (free : s.dir.gl.mutex.held = false) (mutex : d.gl.mutex = s.dir.gl.mutex) :
      DirStep s (.dirLock n f) (s.afterDir d [] n ((s.nodes n).setStage f (.pushing [])))
  /-- A holder leaves, and others still hold the page. -/
  | leave {n : NodeId N} {u : UnlockCall} {d : Directory N} (mem : u ∈ (s.nodes n).unlocks)
      (served : u.served = false) (pended : Pended s.dir.view n) (sound : d.Sound)
      (view : d.view = s.dir.view.leave n)
      (free : s.dir.gl.mutex.held = false) (mutex : d.gl.mutex = s.dir.gl.mutex) :
      DirStep s (.dirUnlock n u) (s.afterDir d [] n { s.nodes n with
        unlocks := { u with served := true } :: (s.nodes n).unlocks.erase u })
  /-- A holder leaves, and the page goes to the oldest request, with a reader to all readers. -/
  | grant {n first : NodeId N} {u : UnlockCall} {d : Directory N} {x : Bool}
      {others : List (NodeId N)} {queue : List (LRRequest N)} (mem : u ∈ (s.nodes n).unlocks)
      (served : u.served = false) (pended : Pended s.dir.view n) (sound : d.Sound)
      (view : d.view = ((s.dir.view.leave n).grant x first others queue).1)
      (front : s.dir.view.front = some first)
      (rest : ∀ k ∈ s.dir.view.rest n, k = first)
      (granted : ∀ k ∈ first :: others,
        ⟨k, x⟩ ∈ s.dir.view.queue ∧ k ∉ queue.map (·.nodeId))
      (kept : ∀ k, k ∉ first :: others → ∀ y,
        ⟨k, y⟩ ∈ queue ↔ ⟨k, y⟩ ∈ s.dir.view.queue)
      (free : s.dir.gl.mutex.held = false) (mutex : d.gl.mutex = s.dir.gl.mutex) :
      DirStep s (.dirUnlock n u) (s.afterDir d
        ((s.dir.view.leave n).grant x first others queue).2 n { s.nodes n with
          unlocks := { u with served := true } :: (s.nodes n).unlocks.erase u })
  /-- An eviction is agreed to. -/
  | evict {n : NodeId N} {lsn : Nat} {d : Directory N} (mem : .asking lsn ∈ (s.nodes n).evicts)
      (holder : n ∈ s.dir.view.holders) (queue : s.dir.view.queue = []) (sound : d.Sound)
      (view : d.view = { s.dir.view.leave n with lsn := lsn })
      (free : s.dir.gl.mutex.held = false) (mutex : d.gl.mutex = s.dir.gl.mutex) :
      DirStep s (.dirEvict n lsn)
        { s.setEvict n (s.nodes n).lk (.asking lsn) .agreed with dir := d }
  /-- An eviction is refused. -/
  | refuse {n : NodeId N} {lsn : Nat} {d : Directory N} (mem : .asking lsn ∈ (s.nodes n).evicts)
      (sound : d.Sound) (view : d.view = s.dir.view)
      (free : s.dir.gl.mutex.held = false) (mutex : d.gl.mutex = s.dir.gl.mutex) :
      DirStep s (.dirEvict n lsn)
        { s.setEvict n (s.nodes n).lk (.asking lsn) .ending with dir := d }

variable {s : State N α} {f : Fetch N}

/-- A node that asks has no request in the queue, and only asks for what it does not have. -/
theorem LockInv.asking (h : LockInv s) (mem : f ∈ (s.nodes n).fetches) (stage : f.stage = .asking) :
    n ∉ s.dir.view.queued ∧ (s.dir.view.queue = [] → n ∈ s.dir.view.holders →
      f.x = true ∧ s.dir.view.excl = false) := by
  obtain ⟨ha, hp⟩ := (h.node n).fetch_of_mem mem
  cases hp with
  | served _ hst => exact absurd stage hst
  | waiting _ _ hh hst =>
    refine ⟨?_, fun hq hn => ?_⟩
    · rcases hst with ⟨-, hnq⟩ | ⟨hst, -⟩
      · exact hnq
      · simp [stage] at hst
    · rcases ha.mode with hm | ⟨hm, hx⟩ <;> rw [hm] at hh
      · exact absurd hq (hh hn).queue_ne_nil
      · exact ⟨hx, hh.2⟩

variable {d : Directory N} {msgs : List (DirMsg N)} {reply : LockReply N}

theorem LockInv.lockShared_dirStep (hN : N < EXCLUSIVE_LOCKED) (h : LockInv s)
    (mem : f ∈ (s.nodes n).fetches) (stage : f.stage = .asking) (hx : f.x = false)
    (call : s.dir.lrpsLock n = .next (d, msgs, reply)) :
    DirStep s (.dirLock n f)
      (s.afterDir d msgs n ((s.nodes n).setStage f (State.stageAfter reply))) := by
  obtain ⟨hnq, hasked⟩ := h.asking mem stage
  have hnh : s.dir.view.queue = [] → n ∉ s.dir.view.holders := fun hq hn => by
    simpa [hx] using (hasked hq hn).1
  have hfree := Directory.lrpsLock_free call
  obtain ⟨hd, hview, rfl, rfl, hmutex⟩ := h.sound.lrpsLock hN hnq hnh call
  by_cases hc : s.dir.view.excl = false ∧ s.dir.view.queue = []
  · cases hnew : s.dir.view.newest with
    | none =>
      have hnil := h.sound.wf.newest_none hnew
      have heq : s.dir.view.lockShared n = ({ s.dir.view with
          holders := [n], excl := f.x, newest := some n }, [],
          .storageFetch s.dir.view.lsn) := by
        simp [lockShared, hc, hnew, hnil, hx]
      rw [heq] at hview hmutex ⊢
      exact .storage mem stage hc.2 hnil hd hview hfree hmutex
    | some m =>
      have heq : s.dir.view.lockShared n = ({ s.dir.view with
          holders := s.dir.view.holders ++ [n] }, [], .pushFrom m) := by
        simp [lockShared, hc, hnew]
      rw [heq] at hview hmutex ⊢
      exact .join mem stage hx hc.2 hc.1 (hnh hc.2) (h.sound.wf.newest_mem hnew) hd hview hfree
        hmutex
  · have heq : s.dir.view.lockShared n = ((s.dir.view.enqueue ⟨n, f.x⟩).1,
        (s.dir.view.enqueue ⟨n, f.x⟩).2, .waitLockRelease) := by
      simp only [lockShared, hc, ite_false, hx]
    rw [heq] at hview hmutex ⊢
    exact .enqueue mem stage hnq hd hview hfree hmutex

theorem LockInv.lockExclusive_dirStep (hN : N < EXCLUSIVE_LOCKED) (h : LockInv s)
    (mem : f ∈ (s.nodes n).fetches) (stage : f.stage = .asking) (hx : f.x = true)
    (call : s.dir.lrpxLock n = .next (d, msgs, reply)) :
    DirStep s (.dirLock n f)
      (s.afterDir d msgs n ((s.nodes n).setStage f (State.stageAfter reply))) := by
  obtain ⟨hnq, hasked⟩ := h.asking mem stage
  have hnh : s.dir.view.queue = [] → s.dir.view.excl = true → n ∉ s.dir.view.holders :=
    fun hq hxl hn => by simp [(hasked hq hn).2] at hxl
  have hfree := Directory.lrpxLock_free call
  obtain ⟨hd, hview, rfl, rfl, hmutex⟩ := h.sound.lrpxLock hN hnq hnh call
  by_cases h0 : s.dir.view.queue = [] ∧ s.dir.view.holders = []
  · have heq : s.dir.view.lockExclusive n = ({ s.dir.view with
        holders := [n], excl := f.x, newest := some n }, [], .storageFetch s.dir.view.lsn) := by
      simp only [lockExclusive, h0, and_self, ite_true, hx]
    rw [heq] at hview ⊢
    exact .storage mem stage h0.1 h0.2 hd hview hfree hmutex
  · by_cases h1 : s.dir.view.queue = [] ∧ s.dir.view.excl = false ∧ s.dir.view.holders = [n]
    · have heq : s.dir.view.lockExclusive n = ({ s.dir.view with excl := true }, [], .localCopy) := by
        simp [lockExclusive, h1]
      rw [heq] at hview ⊢
      exact .upgrade mem stage hx h1.1 h1.2.1 h1.2.2 hd hview hfree hmutex
    · have heq : s.dir.view.lockExclusive n = ((s.dir.view.enqueue ⟨n, f.x⟩).1,
          (s.dir.view.enqueue ⟨n, f.x⟩).2, .waitLockRelease) := by
        simp only [lockExclusive, h0, h1, ite_false, hx]
      rw [heq] at hview ⊢
      exact .enqueue mem stage hnq hd hview hfree hmutex

theorem LockInv.dirLock_dirStep (hN : N < EXCLUSIVE_LOCKED) (h : LockInv s)
    (mem : f ∈ (s.nodes n).fetches) (stage : f.stage = .asking)
    (call : (if f.x then s.dir.lrpxLock n else s.dir.lrpsLock n) = .next (d, msgs, reply)) :
    DirStep s (.dirLock n f)
      (s.afterDir d msgs n ((s.nodes n).setStage f (State.stageAfter reply))) := by
  cases hx : f.x with
  | false => exact h.lockShared_dirStep hN mem stage hx (by simpa [hx] using call)
  | true => exact h.lockExclusive_dirStep hN mem stage hx (by simpa [hx] using call)

variable {first m : NodeId N}

theorem grant_leave (hne : first ≠ m) (x : Bool) (others : List (NodeId N))
    (queue : List (LRRequest N)) :
    (a.leave m).grant x first others queue = a.grant x first others queue := by
  simp [grant, leave, mem_rest, hne]

variable {rs : List (LRRequest N)} {r : LRRequest N} {k : NodeId N}

theorem mem_granted (hwf : a.WF) (hq : a.queue = r :: rs) (hk : k ∈ granted r rs) :
    ⟨k, r.xlock⟩ ∈ a.queue ∧ k ∉ (kept r rs).map (·.nodeId) := by
  have hsub := kept_sublist r rs
  simp only [granted, List.mem_cons] at hk
  rcases hk with rfl | hk
  · refine ⟨by simp [hq], fun hmem => ?_⟩
    obtain ⟨q, hq', he⟩ := List.mem_map.1 hmem
    exact front_ne_of_mem_tail hwf hq (hsub.subset hq') he.symm
  · cases hx : r.xlock with
    | true => simp [hx] at hk
    | false =>
      simp only [hx, Bool.false_eq_true, ite_false, List.mem_map, List.mem_filter] at hk
      obtain ⟨q, ⟨hqm, hqx⟩, rfl⟩ := hk
      have hqx' : q.xlock = false := by simpa using hqx
      refine ⟨by rw [hq, ← hqx']; exact List.mem_cons_of_mem _ hqm, fun hmem => ?_⟩
      obtain ⟨q', hq', he⟩ := List.mem_map.1 hmem
      have hq'' : q' ∈ rs ∧ q'.xlock = true := by
        simpa [kept, hx] using hq'
      have heq : q' = q := List.inj_on_of_nodup_map (tail_nodup hwf hq) hq''.1 hqm he
      simp [heq, hqx'] at hq''

theorem mem_kept (hq : a.queue = r :: rs) (hk : k ∉ granted r rs) (y : Bool) :
    ⟨k, y⟩ ∈ kept r rs ↔ ⟨k, y⟩ ∈ a.queue := by
  have hne : (⟨k, y⟩ : LRRequest N) ≠ r := by
    rintro rfl
    simp [granted] at hk
  rw [hq, List.mem_cons, or_iff_right hne]
  cases hx : r.xlock with
  | true => simp [kept, hx]
  | false =>
    simp only [kept, hx, Bool.false_eq_true, ite_false, List.mem_filter,
      and_iff_left_iff_imp]
    intro hmem
    by_contra hy
    refine hk (List.mem_cons_of_mem _ ?_)
    simp only [hx, Bool.false_eq_true, ite_false, List.mem_map, List.mem_filter]
    exact ⟨⟨k, y⟩, ⟨hmem, by simpa using hy⟩, rfl⟩

variable {u : UnlockCall}

/-- A node that is about to tell the directory has been asked for the page. -/
theorem NodeInv.pended_of_unlock (h : NodeInv a n nd) (mem : u ∈ nd.unlocks)
    (served : u.served = false) : Pended a n := by
  have hpos : 0 < nd.unlocks.countP fun u => !u.served :=
    List.countP_pos_iff.2 ⟨u, mem, by simp [served]⟩
  refine h.duties_pended ?_
  simp only [Node.duties, Node.giving]
  omega

theorem LockInv.unlock_dirStep (hN : N < EXCLUSIVE_LOCKED) (h : LockInv s)
    (mem : u ∈ (s.nodes n).unlocks) (served : u.served = false)
    (call : s.dir.lrpAnyUnLock n = .next (d, msgs)) :
    DirStep s (.dirUnlock n u) (s.afterDir d msgs n { s.nodes n with
      unlocks := { u with served := true } :: (s.nodes n).unlocks.erase u }) := by
  have hpended := (h.node n).pended_of_unlock mem served
  have hwf := h.sound.wf
  have hfree := Directory.lrpAnyUnLock_free call
  obtain ⟨hd, hview, rfl, hmutex⟩ := h.sound.lrpAnyUnLock hN hpended.1 call
  obtain ⟨hn, r, rs, hq, hr⟩ := id hpended
  have hfront : s.dir.view.front = some r.nodeId := by simp [front, hq]
  by_cases h0 : s.dir.view.rest n = []
  · have heq : s.dir.view.release n = (s.dir.view.leave n).grant r.xlock r.nodeId
        (granted r rs).tail (kept r rs) := by
      simp only [grant_leave hr, release, hq, h0, ite_true]
    rw [heq] at hview ⊢
    exact .grant mem served hpended hd hview hfront (by simp [h0])
      (fun k hk => mem_granted hwf hq hk) (fun k hk => mem_kept hq hk) hfree hmutex
  · by_cases h1 : s.dir.view.rest n = [r.nodeId]
    · have heq : s.dir.view.release n = (s.dir.view.leave n).grant true r.nodeId [] rs := by
        simp [grant_leave hr, release, hq, h1]
      rw [heq] at hview ⊢
      refine .grant mem served hpended hd hview hfront (by simp [h1]) ?_ ?_ hfree hmutex
      · intro k hk
        obtain rfl : k = r.nodeId := by simpa using hk
        have hx : r.xlock = true := xlock_of_rest hwf hn hq h0
        refine ⟨by rw [← hx, hq]; exact List.mem_cons_self, fun hmem => ?_⟩
        obtain ⟨q, hq', he⟩ := List.mem_map.1 hmem
        exact front_ne_of_mem_tail hwf hq hq' he.symm
      · intro k hk y
        have hne : (⟨k, y⟩ : LRRequest N) ≠ r := by
          rintro rfl
          simp at hk
        rw [hq, List.mem_cons, or_iff_right hne]
    · have heq : s.dir.view.release n = (s.dir.view.leave n, []) := by
        simp only [release, hq, h0, h1, ite_false]
      rw [heq] at hview ⊢
      exact .leave mem served hpended hd hview hfree hmutex

variable {lsn : Nat}

theorem LockInv.evict_dirStep (hN : N < EXCLUSIVE_LOCKED) (h : LockInv s)
    (mem : .asking lsn ∈ (s.nodes n).evicts) {agree : Bool}
    (call : s.dir.bufferReleaseUnlock n lsn = .next (d, agree)) :
    DirStep s (.dirEvict n lsn)
      { s.setEvict n (s.nodes n).lk (.asking lsn) (if agree then .agreed else .ending) with
        dir := d } := by
  have hfree := Directory.bufferReleaseUnlock_free call
  obtain ⟨hd, hview, rfl, hmutex⟩ := h.sound.bufferReleaseUnlock hN call
  by_cases hc : n ∈ s.dir.view.holders ∧ s.dir.view.queue = []
  · simp only [evict, hc, and_self, ite_true] at hview ⊢
    exact .evict mem hc.1 hc.2 hd (by simp [hview, leave, hc.2]) hfree hmutex
  · simp only [evict, hc, ite_false] at hview ⊢
    exact .refuse mem hd hview hfree hmutex

/-- The step calls the directory. -/
def Action.callsDirectory : Action N α → Bool
  | .dirLock .. | .dirUnlock .. | .dirEvict .. => true
  | _ => false

theorem LockInv.dirStep_of_step [DecidableEq α] {act : Action N α} (hN : N < EXCLUSIVE_LOCKED)
    (h : LockInv s) (hs : Step s act s') (hcall : act.callsDirectory = true) : DirStep s act s' := by
  cases hs with
  | dirLock mem stage call => exact h.dirLock_dirStep hN mem stage call
  | dirUnlock mem served call => exact h.unlock_dirStep hN mem served call
  | dirEvict mem call => exact h.evict_dirStep hN mem call
  | _ => cases hcall

/-- Directories `a` and `b` are the same as far as node `n` is concerned. -/
structure SameFor (a b : AbsDirectory N) (n : NodeId N) : Prop where
  /-- The same requests of the node wait. -/
  queue : ∀ x, ⟨n, x⟩ ∈ b.queue ↔ ⟨n, x⟩ ∈ a.queue
  holder : n ∈ b.holders ↔ n ∈ a.holders
  /-- If it is listed, then for the same kind of lock. -/
  excl : n ∈ a.holders → b.excl = a.excl
  /-- If it has been asked for the page, then it still is. -/
  pended : Pended a n → Pended b n

theorem SameFor.queued (h : SameFor a b n) : n ∈ b.queued ↔ n ∈ a.queued := by
  simp only [mem_queued, h.queue]

theorem SameFor.holds (h : SameFor a b n) {mode : LockMode} (hh : Holds a n mode) :
    Holds b n mode := by
  cases mode with
  | none => exact fun hn => h.pended (hh (h.holder.1 hn))
  | shared | exclusive => exact ⟨h.holder.2 hh.1, (h.excl hh.1).trans hh.2⟩

theorem NodeInv.frame (h : NodeInv a n nd) (hs : SameFor a b n) : NodeInv b n nd := by
  refine { h with phase := ?_, duties_pended := fun hpos => hs.pended (h.duties_pended hpos)
                  pending_excl := fun p hp => ?_ }
  · cases h.phase with
    | idle hi hst =>
      refine .idle { hi with unqueued := fun hq => hi.unqueued (hs.queued.1 hq) } ?_
      split at hst <;> rename_i hpast
      · simp only [hpast, ite_true]
        exact fun hn => hst (hs.holder.1 hn)
      · simp only [hpast]
        exact hs.holds hst
    | fetching ha hp =>
      refine .fetching ha ?_
      cases hp with
      | waiting hg hsu hh hst =>
        refine .waiting hg hsu (hs.holds hh) ?_
        rcases hst with ⟨hst, hq⟩ | ⟨hst, hq⟩
        · exact .inl ⟨hst, fun hq' => hq (hs.queued.1 hq')⟩
        · exact .inr ⟨hst, (hs.queue _).2 hq⟩
      | served hg hst hn hk =>
        exact .served ⟨fun hq => hg.unqueued (hs.queued.1 hq), hs.holder.2 hg.holder,
          (hs.excl hg.holder).trans hg.excl⟩ hst hn hk
  · have hpos : 0 < nd.duties := by
      have := List.length_pos_of_mem hp
      simp only [Node.duties]
      omega
    rw [h.pending_excl p hp, hs.excl (h.duties_pended hpos).1]

theorem receive_nil : nd.receive n [] = nd := by
  simp [Node.receive]

theorem receive_append (l l' : List (DirMsg N)) :
    nd.receive n (l ++ l') = (nd.receive n l).receive n l' := by
  simp [Node.receive]

/-- Of the messages to the nodes of a list, a node gets its own. -/
theorem filterMap_msgs {β : Type} {msg : NodeId N → DirMsg N} {msgFor : DirMsg N → Option β} {v : β}
    (self : msgFor (msg n) = some v) (other : ∀ m, m ≠ n → msgFor (msg m) = none)
    {l : List (NodeId N)} (hl : l.Nodup) :
    (l.map msg).filterMap msgFor = if n ∈ l then [v] else [] := by
  induction l with
  | nil => simp
  | cons m l ih =>
    obtain ⟨hm, hl⟩ := List.nodup_cons.1 hl
    by_cases hmn : m = n
    · subst hmn
      simp [self, ih hl, hm]
    · simp [other m hmn, ih hl, Ne.symm hmn]

theorem filterMap_pendingFor_pendingMsgs (hnd : a.holders.Nodup) (hq : a.queue = r :: rs) :
    a.pendingMsgs.filterMap (pendingFor n) =
      if n ∈ a.holders ∧ r.nodeId ≠ n
      then [⟨a.excl, if some n = a.pusher r.nodeId then some r.nodeId else none⟩] else [] := by
  simp only [pendingMsgs, hq]
  rw [filterMap_msgs (if_pos rfl) (fun m hm => if_neg hm) (hnd.filter _)]
  by_cases hn : r.nodeId = n
  · simp [hn]
  · simp [hn, Ne.symm hn]

theorem filterMap_successFor_pendingMsgs : a.pendingMsgs.filterMap (successFor n) = [] := by
  unfold pendingMsgs
  split
  · rfl
  · simp [List.filterMap_map, comp_def, successFor]

theorem NodeInv.pendingMsgs (h : NodeInv a n nd) (hnd : a.holders.Nodup) (hd : nd.duties = 0) :
    NodeInv a n (nd.receive n a.pendingMsgs) := by
  cases hq : a.queue with
  | nil =>
    have : a.pendingMsgs = [] := by simp [AbsDirectory.pendingMsgs, hq]
    rw [this, receive_nil]
    exact h
  | cons r rs =>
    simp only [Node.receive, filterMap_successFor_pendingMsgs, List.append_nil,
      filterMap_pendingFor_pendingMsgs hnd hq]
    by_cases hc : n ∈ a.holders ∧ r.nodeId ≠ n
    · have hpended : Pended a n := ⟨hc.1, r, rs, hq, hc.2⟩
      simp only [hc, ne_eq, not_false_eq_true, and_self, ite_true]
      simp only [Node.duties, Node.giving] at hd
      refine { h with phase := ?_, duties_le := ?_, duties_pended := fun _ => hpended
                      pending_excl := ?_ }
      · cases h.phase with
        | idle hi hst => exact .idle { hi with } hst
        | fetching ha hp =>
          refine .fetching { ha with } ?_
          cases hp with
          | waiting hg hsu hh hst => exact .waiting hg hsu hh hst
          | served hg hst hn hk => exact .served hg hst hn hk
      · simp only [Node.duties, Node.giving, List.length_append, List.length_singleton]
        omega
      · intro p hp
        rcases List.mem_append.1 hp with hp | hp
        · exact h.pending_excl p hp
        · rw [List.mem_singleton.1 hp]
    · simp only [hc, ite_false, List.append_nil]
      exact h

variable {others : List (NodeId N)} {x : Bool}

theorem filterMap_successFor_successMsgs {newest : Bool} (hnd : (first :: others).Nodup) :
    (successMsgs x newest first others).filterMap (successFor n) =
      if n = first then [⟨x, newest, others⟩] else if n ∈ others then [⟨x, false, []⟩] else [] := by
  obtain ⟨hfirst, hothers⟩ := List.nodup_cons.1 hnd
  rw [successMsgs, List.filterMap_cons,
    filterMap_msgs (if_pos rfl) (fun m hm => if_neg hm) hothers]
  simp only [successFor]
  by_cases hn : first = n
  · subst hn
    simp [hfirst]
  · simp [hn, Ne.symm hn]

theorem filterMap_pendingFor_successMsgs {newest : Bool} :
    (successMsgs x newest first others).filterMap (pendingFor n) = [] := by
  simp [successMsgs, pendingFor]

theorem queue_unique (hnd : a.queued.Nodup) {y : Bool} (hx : ⟨n, x⟩ ∈ a.queue)
    (hy : ⟨n, y⟩ ∈ a.queue) : x = y := by
  have := List.inj_on_of_nodup_map hnd hx hy rfl
  exact congrArg LRRequest.xlock this

theorem of_duties (hd : nd.duties = 0) : nd.pendings = [] ∧ nd.giving = 0 := by
  simp only [Node.duties] at hd
  exact ⟨List.length_eq_zero_iff.1 (by omega), by omega⟩

theorem NodeInv.granted (h : NodeInv a n nd) (hnd : a.queued.Nodup) (hq : ⟨n, x⟩ ∈ a.queue)
    (hd : nd.duties = 0) (hg : Granted b n x) (g : LockSuccessRequest N) :
    NodeInv b n { nd with grants := nd.grants ++ [g] } := by
  obtain ⟨hpend, hgive⟩ := of_duties hd
  refine { h with phase := ?_, duties_pended := fun hpos => ?_, pending_excl := by simp [hpend] }
  · cases h.phase with
    | idle hi => exact absurd (mem_queued.2 ⟨x, hq⟩) hi.unqueued
    | fetching ha hp =>
      refine .fetching { ha with } ?_
      cases hp with
      | served hg' => exact absurd (mem_queued.2 ⟨x, hq⟩) hg'.unqueued
      | waiting hgr hsu _ hst =>
        rcases hst with ⟨-, hnq⟩ | ⟨hst, hq'⟩
        · exact absurd (mem_queued.2 ⟨x, hq⟩) hnq
        · refine .served (queue_unique hnd hq hq' ▸ hg) (by simp [hst]) ?_ hgive
          simp [hgr, hsu, hst]
  · have : ({ nd with grants := nd.grants ++ [g] } : Node N α).duties = nd.duties := rfl
    omega

variable {queue : List (LRRequest N)}

theorem NodeInv.grant (h : NodeInv a n nd) (hnd : a.queued.Nodup)
    (hwf' : (a.grant x first others queue).1.WF) (hd : nd.duties = 0)
    (hin : n ∈ first :: others → ⟨n, x⟩ ∈ a.queue ∧ n ∉ queue.map (·.nodeId))
    (hout : n ∉ first :: others → SameFor a (a.grant x first others queue).1 n) :
    NodeInv (a.grant x first others queue).1 n
      (nd.receive n (a.grant x first others queue).2) := by
  have hmsgs : (a.grant x first others queue).2 =
      successMsgs x (first ∈ a.holders) first others ++
        (a.grant x first others queue).1.pendingMsgs := rfl
  rw [hmsgs, receive_append]
  have hsucc : ∀ nd' : Node N α, nd'.duties = 0 →
      NodeInv (a.grant x first others queue).1 n nd' →
      NodeInv (a.grant x first others queue).1 n
        (nd'.receive n (a.grant x first others queue).1.pendingMsgs) :=
    fun nd' hd' h' => h'.pendingMsgs hwf'.holders_nodup hd'
  refine hsucc _ (by simpa [Node.receive, Node.duties, Node.giving,
    filterMap_pendingFor_successMsgs] using hd) ?_
  simp only [Node.receive, filterMap_pendingFor_successMsgs, List.append_nil,
    filterMap_successFor_successMsgs hwf'.holders_nodup]
  by_cases hn : n ∈ first :: others
  · obtain ⟨hq, hnq⟩ := hin hn
    have hg : Granted (a.grant x first others queue).1 n x := ⟨hnq, hn, rfl⟩
    by_cases hf : n = first
    · simp only [hf, ite_true]
      exact hf ▸ h.granted hnd hq hd hg _
    · have ho : n ∈ others := by simpa [hf] using hn
      simp only [hf, ite_false, ho, ite_true]
      exact h.granted hnd hq hd hg _
  · obtain ⟨hf, ho⟩ := not_or.1 (mt List.mem_cons.2 hn)
    simp only [hf, ho, ite_false, List.append_nil]
    exact h.frame (hout hn)

@[simp] theorem duties_setStage (f : Fetch N) (stage : FetchStage N) :
    (nd.setStage f stage).duties = nd.duties := rfl

theorem duties_eq_zero (h : NodeInv a n nd) (hp : ¬ Pended a n) : nd.duties = 0 := by
  by_contra hd
  exact hp (h.duties_pended (Nat.pos_of_ne_zero hd))

theorem not_pended_of_queue_nil (hq : a.queue = []) : ¬ Pended a n :=
  fun h => h.queue_ne_nil hq

theorem sameFor_enqueue (hne : n ≠ m) (x : Bool) : SameFor a (a.enqueue ⟨m, x⟩).1 n where
  queue y := by simp [enqueue, hne]
  holder := Iff.rfl
  excl _ := rfl
  pended := by
    rintro ⟨hn, r, rs, hq, hr⟩
    exact ⟨hn, r, rs ++ [⟨m, x⟩], by simp [enqueue, hq], hr⟩

theorem NodeInv.enqueued (h : NodeInv a n nd) (mem : f ∈ nd.fetches) (stage : f.stage = .asking) :
    NodeInv (a.enqueue ⟨n, f.x⟩).1 n (nd.setStage f (.answered .waitLockRelease)) := by
  obtain ⟨ha, hp⟩ := h.fetch_of_mem mem
  have hpended : Pended a n → Pended (a.enqueue ⟨n, f.x⟩).1 n := by
    rintro ⟨hn, r, rs, hq, hr⟩
    exact ⟨hn, r, rs ++ [⟨n, f.x⟩], by simp [enqueue, hq], hr⟩
  have ha' : Asking (nd.setStage f (.answered .waitLockRelease)) ⟨f.x, .answered .waitLockRelease⟩ :=
    { ha with fetches := by simp [Node.setStage, ha.fetches] }
  refine { h with phase := .fetching ha' ?_
                  duties_pended := fun hpos => hpended (h.duties_pended hpos) }
  cases hp with
  | served _ hst => exact absurd stage hst
  | waiting hgr hsu hh =>
    refine .waiting hgr hsu ?_ (.inr ⟨rfl, by simp [enqueue]⟩)
    show Holds _ n nd.lk.remoteMode
    cases hm : nd.lk.remoteMode with
    | none => exact fun hn => hpended ((hm ▸ hh : Holds a n .none) hn)
    | shared => exact (hm ▸ hh : Holds a n .shared)
    | exclusive => exact (hm ▸ hh : Holds a n .exclusive)

variable {stage' : FetchStage N}

theorem NodeInv.granted_at_once (h : NodeInv a n nd) (mem : f ∈ nd.fetches)
    (stage : f.stage = .asking) (hd : nd.duties = 0) (hg : Granted b n f.x)
    (hask : stage' ≠ .asking) (hwait : stage' ≠ .answered .waitLockRelease) :
    NodeInv b n (nd.setStage f stage') := by
  obtain ⟨ha, hp⟩ := h.fetch_of_mem mem
  have hd' : (nd.setStage f stage').duties = 0 := hd
  obtain ⟨hpend, hgive⟩ := of_duties hd
  have ha' : Asking (nd.setStage f stage') ⟨f.x, stage'⟩ :=
    { ha with fetches := by simp [Node.setStage, ha.fetches] }
  refine { h with phase := .fetching ha' ?_, duties_pended := fun hpos => by omega
                  pending_excl := by simp [Node.setStage, hpend] }
  cases hp with
  | served _ hst => exact absurd stage hst
  | waiting hgr hsu =>
    refine .served hg hask ?_ hgive
    simp [Node.setStage, hgr, hsu, hwait]

theorem LockInv.enqueue (h : LockInv s) (mem : f ∈ (s.nodes n).fetches)
    (stage : f.stage = .asking) (hd : d.Sound) (hview : d.view = (s.dir.view.enqueue ⟨n, f.x⟩).1) :
    LockInv (s.afterDir d (s.dir.view.enqueue ⟨n, f.x⟩).2 n
      ((s.nodes n).setStage f (.answered .waitLockRelease))) := by
  refine ⟨hd, fun k => ?_⟩
  have hkey : NodeInv (s.dir.view.enqueue ⟨n, f.x⟩).1 k
      (update s.nodes n ((s.nodes n).setStage f (.answered .waitLockRelease)) k) := by
    by_cases hk : k = n
    · subst hk
      simpa using (h.node k).enqueued mem stage
    · simpa [update, hk] using (h.node k).frame (sameFor_enqueue hk f.x)
  show NodeInv d.view k (Node.receive _ k _)
  rw [hview]
  by_cases hq : s.dir.view.queue = []
  · have hmsgs : (s.dir.view.enqueue ⟨n, f.x⟩).2 =
        (s.dir.view.enqueue ⟨n, f.x⟩).1.pendingMsgs := by
      simp [AbsDirectory.enqueue, hq]
    rw [hmsgs]
    refine hkey.pendingMsgs h.sound.wf.holders_nodup ?_
    have hd0 := duties_eq_zero (h.node k) (not_pended_of_queue_nil hq)
    by_cases hk : k = n
    · subst hk
      simpa using hd0
    · simpa [update, hk] using hd0
  · have hmsgs : (s.dir.view.enqueue ⟨n, f.x⟩).2 = [] := by
      simp [AbsDirectory.enqueue, hq]
    rw [hmsgs, receive_nil]
    exact hkey

theorem LockInv.grantedAtOnce (h : LockInv s) (mem : f ∈ (s.nodes n).fetches)
    (stage : f.stage = .asking) (hd : d.Sound) (hq : s.dir.view.queue = [])
    (hg : Granted d.view n f.x) (hout : ∀ k, k ≠ n → SameFor s.dir.view d.view k)
    (hask : stage' ≠ .asking) (hwait : stage' ≠ .answered .waitLockRelease) :
    LockInv (s.afterDir d [] n ((s.nodes n).setStage f stage')) := by
  refine ⟨hd, fun k => ?_⟩
  show NodeInv d.view k (Node.receive _ k [])
  rw [receive_nil]
  by_cases hk : k = n
  · subst hk
    have hd0 := duties_eq_zero (h.node k) (not_pended_of_queue_nil hq)
    simpa using (h.node k).granted_at_once mem stage hd0 hg hask hwait
  · simpa [update, hk] using (h.node k).frame (hout k hk)

theorem sameFor_leave (hwf : a.WF) (hm : m ∈ a.holders) (hne : n ≠ m) :
    SameFor a (a.leave m) n where
  queue _ := Iff.rfl
  holder := by simp [leave, mem_rest, hne]
  excl hn := by
    -- two holders are readers
    by_contra hx
    obtain ⟨k, hk⟩ := hwf.excl_single (by simpa [leave] using Ne.symm hx)
    rw [hk, List.mem_singleton] at hn hm
    exact hne (hn.trans hm.symm)
  pended := by
    rintro ⟨hn, r, rs, hq, hr⟩
    exact ⟨mem_rest.2 ⟨hn, hne⟩, r, rs, hq, hr⟩

theorem NodeInv.left (h : NodeInv a n nd) (mem : u ∈ nd.unlocks) (served : u.served = false) :
    NodeInv (a.leave n) n
        { nd with unlocks := { u with served := true } :: nd.unlocks.erase u } ∧
      ({ nd with unlocks := { u with served := true } :: nd.unlocks.erase u } :
        Node N α).duties = 0 := by
  have hcount := Counting.countP_erase_add (fun u : UnlockCall => !u.served) mem
  simp only [served, Bool.not_false, ite_true] at hcount
  have hle := h.duties_le
  simp only [Node.duties, Node.giving] at hle
  have hmode : nd.lk.remoteMode = .none := h.giving_mode (by simp only [Node.giving]; omega)
  have hd : ({ nd with unlocks := { u with served := true } :: nd.unlocks.erase u } :
      Node N α).duties = 0 := by
    simp only [Node.duties, Node.giving, List.countP_cons, Bool.not_true, Bool.false_eq_true,
      ite_false]
    omega
  obtain ⟨hpend, hgive⟩ := of_duties hd
  have hpend : nd.pendings = [] := hpend
  have hnot : n ∉ (a.leave n).holders := by simp [leave, mem_rest]
  refine ⟨{ h with phase := ?_, duties_le := by omega, duties_pended := fun hpos => by omega
                   pending_excl := by simp [hpend], giving_mode := fun hpos => by omega }, hd⟩
  cases h.phase with
  | idle hi hs =>
    refine .idle { hi with } ?_
    split
    · exact hnot
    · simp only [hmode]
      exact fun hn => absurd hn hnot
  | fetching ha hp =>
    refine .fetching { ha with } ?_
    cases hp with
    | waiting hgr hsu _ hst =>
      refine .waiting hgr hsu ?_ hst
      simp only [hmode]
      exact fun hn => absurd hn hnot
    | served _ _ _ hk =>
      simp only [Node.giving] at hk
      omega

theorem LockInv.node_left (h : LockInv s) (mem : u ∈ (s.nodes n).unlocks)
    (served : u.served = false) (pended : Pended s.dir.view n) (k : NodeId N) :
    NodeInv (s.dir.view.leave n) k (update s.nodes n { s.nodes n with
      unlocks := { u with served := true } :: (s.nodes n).unlocks.erase u } k) := by
  by_cases hk : k = n
  · subst hk
    simpa using ((h.node k).left mem served).1
  · simpa [update, hk] using (h.node k).frame (sameFor_leave h.sound.wf pended.1 hk)

theorem LockInv.leave (h : LockInv s) (mem : u ∈ (s.nodes n).unlocks) (served : u.served = false)
    (pended : Pended s.dir.view n) (sound : d.Sound) (view : d.view = s.dir.view.leave n) :
    LockInv (s.afterDir d [] n { s.nodes n with
      unlocks := { u with served := true } :: (s.nodes n).unlocks.erase u }) := by
  refine ⟨sound, fun k => ?_⟩
  show NodeInv d.view k (Node.receive _ k [])
  rw [receive_nil, view]
  exact h.node_left mem served pended k

/-- Whoever is still listed before a grant is the node at the front of the queue, and it was not
asked. -/
theorem not_pended_leave (front : a.front = some first) (rest : ∀ k ∈ a.rest m, k = first) :
    ¬ Pended (a.leave m) k := by
  rintro ⟨hk, r, rs, hq, hr⟩
  have hf : some r.nodeId = some first := by
    rw [← front]
    simp only [AbsDirectory.front, show a.queue = r :: rs from hq, List.head?_cons,
      Option.map_some]
  exact hr ((Option.some.inj hf).trans (rest k hk).symm)

theorem LockInv.grant (h : LockInv s) (mem : u ∈ (s.nodes n).unlocks) (served : u.served = false)
    (pended : Pended s.dir.view n) (sound : d.Sound)
    (view : d.view = ((s.dir.view.leave n).grant x first others queue).1)
    (front : s.dir.view.front = some first) (rest : ∀ k ∈ s.dir.view.rest n, k = first)
    (granted : ∀ k ∈ first :: others, ⟨k, x⟩ ∈ s.dir.view.queue ∧ k ∉ queue.map (·.nodeId))
    (kept : ∀ k, k ∉ first :: others → ∀ y, ⟨k, y⟩ ∈ queue ↔ ⟨k, y⟩ ∈ s.dir.view.queue) :
    LockInv (s.afterDir d ((s.dir.view.leave n).grant x first others queue).2 n { s.nodes n with
      unlocks := { u with served := true } :: (s.nodes n).unlocks.erase u }) := by
  refine ⟨sound, fun k => ?_⟩
  show NodeInv d.view k (Node.receive _ k _)
  rw [view]
  have hwf' : ((s.dir.view.leave n).grant x first others queue).1.WF := view ▸ sound.wf
  have hnp : ¬ Pended (s.dir.view.leave n) k := not_pended_leave front rest
  refine (h.node_left mem served pended k).grant h.sound.wf.queue_nodup hwf'
    (duties_eq_zero (h.node_left mem served pended k) hnp) (granted k) fun hk => ?_
  have hnk : k ∉ (s.dir.view.leave n).holders := fun hmem =>
    hk (by rw [rest k hmem]; exact List.mem_cons_self)
  exact { queue := kept k hk, holder := ⟨fun hmem => absurd hmem hk, fun hmem => absurd hmem hnk⟩
          excl := fun hmem => absurd hmem hnk, pended := fun hpd => absurd hpd hnp }

theorem NodeInv.evicted (h : NodeInv a n nd) (mem : .asking lsn ∈ nd.evicts) (hd : nd.duties = 0)
    (hq : ∀ x, ⟨n, x⟩ ∈ b.queue ↔ ⟨n, x⟩ ∈ a.queue) (hn : n ∉ b.holders) :
    NodeInv b n { nd with evicts := .agreed :: nd.evicts.erase (.asking lsn) } := by
  obtain ⟨heq, hev⟩ := h.evicts_eq mem
  have hi := h.idle_of_evict mem
  have hd' : ({ nd with evicts := .agreed :: nd.evicts.erase (.asking lsn) } :
      Node N α).duties = 0 := hd
  obtain ⟨hpend, -⟩ := of_duties hd
  have hunq : n ∉ b.queued := fun hmem => hi.unqueued (by
    obtain ⟨x, hx⟩ := mem_queued.1 hmem
    exact mem_queued.2 ⟨x, (hq x).1 hx⟩)
  refine { h with phase := .idle { hi with unqueued := hunq } (by simpa [Evict.past] using hn)
                  duties_pended := fun hpos => by omega
                  pending_excl := by simp [hpend], evicts_length := by simp [heq, hev] }

theorem LockInv.evict (h : LockInv s) (mem : .asking lsn ∈ (s.nodes n).evicts)
    (holder : n ∈ s.dir.view.holders) (queue : s.dir.view.queue = []) (sound : d.Sound)
    (view : d.view = { s.dir.view.leave n with lsn := lsn }) :
    LockInv { s.setEvict n (s.nodes n).lk (.asking lsn) .agreed with dir := d } := by
  refine ⟨sound, fun k => ?_⟩
  show NodeInv d.view k (update s.nodes n _ k)
  rw [view]
  by_cases hk : k = n
  · subst hk
    have hd0 := duties_eq_zero (h.node k) (not_pended_of_queue_nil queue)
    rw [update_self]
    refine (h.node k).evicted mem hd0 (fun _ => Iff.rfl) ?_
    simp [AbsDirectory.leave, mem_rest]
  · have hsame := sameFor_leave h.sound.wf holder hk
    rw [update_of_ne hk]
    exact (h.node k).frame
      { queue := hsame.queue, holder := hsame.holder, excl := hsame.excl
        pended := fun hpd => absurd queue hpd.queue_ne_nil }

end LazyRelease
