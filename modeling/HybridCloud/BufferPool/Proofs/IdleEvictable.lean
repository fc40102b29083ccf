import HybridCloud.BufferPool.Proofs.FrameOwnership

/-!
# Idle pages can be evicted

Two callers of `fetch_page` have no release behind them: the handler of NotifyPushPage may push a
page that nobody on its node uses, and an eviction that the directory refuses has pinned its victim.
If neither happens (`KeepsEvictable`), then in every quiescent state the frames of all idle pages
can be chosen as victims, and only those.
-/

namespace LazyRelease

open GPLM Outcome

variable {N : Nat} {α : Type} {st st' : State N α} {me n : NodeId N}

/-- The fetch has the lock and the page. -/
def Fetch.pushes (f : Fetch N) : Bool :=
  match f.stage with
  | .pushing _ => true
  | _ => false

/-- A release has given the page up and will drop it. -/
def Node.Dropping (nd : Node N α) : Prop := ∃ u ∈ nd.unlocks, u.fromRelease = true

/-- How the users of a page change in a step that is neither the end of a fetch nor the end of a
release. -/
structure Node.KeepsUse (nd nd' : Node N α) : Prop where
  lock : nd'.lk.lock = nd.lk.lock
  dropping : nd.Dropping → nd'.Dropping
  fetches : nd.fetches ≠ [] → nd'.fetches ≠ []
  pushes : (∃ f ∈ nd.fetches, f.pushes = true) → ∃ f ∈ nd'.fetches, f.pushes = true

theorem Node.KeepsUse.refl (nd : Node N α) : nd.KeepsUse nd := ⟨rfl, id, id, id⟩

/-- A local lock is taken, a fetch ends, a release keeps the page, or the page is dropped. -/
def Action.changesUse (me : NodeId N) : Action N α → Bool
  | .lock n _ | .fetchDone n _ | .releaseFinish n _ => n = me
  | .unlockReturn n u => n = me ∧ u.fromRelease = true
  | _ => false

section Uses

variable {nd nd' : Node N α}

theorem keepsUse_setStage {f : Fetch N} {stage : FetchStage N} (hl : nd'.lk.lock = nd.lk.lock)
    (hu : nd'.unlocks = nd.unlocks)
    (hf : nd'.fetches = { f with stage := stage } :: nd.fetches.erase f)
    (hpush : f.pushes = true → Fetch.pushes ⟨f.x, stage⟩ = true) : nd.KeepsUse nd' := by
  refine ⟨hl, fun ⟨u, hmem, hrel⟩ => ⟨u, hu ▸ hmem, hrel⟩, fun _ => by simp [hf], ?_⟩
  rintro ⟨g, hg, hp⟩
  by_cases hgf : g = f
  · subst hgf
    exact ⟨⟨g.x, stage⟩, by simp [hf], hpush hp⟩
  · exact ⟨g, by rw [hf]; exact List.mem_cons_of_mem _ ((List.mem_erase_of_ne hgf).2 hg), hp⟩

theorem keepsUse_of_eq (hl : nd'.lk.lock = nd.lk.lock) (hf : nd'.fetches = nd.fetches)
    (hu : nd.Dropping → nd'.Dropping) : nd.KeepsUse nd' :=
  ⟨hl, hu, fun h => by rwa [hf], fun h => by rwa [hf]⟩

variable {a : Action N α}

theorem Step.keepsUse [DecidableEq α] (hs : Step st a st') (hput : a.byPut me = false)
    (huse : a.changesUse me = false) : (st.nodes me).KeepsUse (st'.nodes me) := by
  have hset : ∀ {n : NodeId N} {nd : Node N α}, (n = me → (st.nodes n).KeepsUse nd) →
      (st.nodes me).KeepsUse ((st.setNode n nd).nodes me) := rel_setNode Node.KeepsUse.refl
  have hsent : ∀ {n : NodeId N} {dest : Option (NodeId N)} {nd : Node N α},
      (n = me → (st.nodes n).KeepsUse nd) →
      (st.nodes me).KeepsUse (((st.sent n dest).setNode n nd).nodes me) :=
    rel_sent Node.KeepsUse.refl fun _ _ => keepsUse_of_eq rfl rfl id
  have hreceive : ∀ (nd nd' : Node N α) (msgs : List (DirMsg N)), nd.KeepsUse nd' →
      nd.KeepsUse (nd'.receive me msgs) := fun _ _ _ h => ⟨h.lock, h.dropping, h.fetches, h.pushes⟩
  cases hs with
  | lockLocalS | lockLocalX | lockAskS | lockAskX | fetchDone | releaseEnd | releaseUnlock =>
    refine hset fun hn => ?_
    simp [Action.changesUse, hn] at huse
  | write | writeUnlogged | releaseS | releaseX | releaseKeep | pendingKeep | pushNotify
  | lockSuccess =>
    exact hset fun _ => keepsUse_of_eq rfl rfl id
  | pending _ _ _ _ case =>
    exact hset fun _ => keepsUse_of_eq (by cases case <;> rfl) rfl id
  | @dirLock n f d msgs reply mem stage =>
    exact rel_afterDir hreceive Node.KeepsUse.refl fun _ =>
      keepsUse_setStage rfl rfl rfl (by simp [Fetch.pushes, stage])
  | @notifyPush n m f page mem stage | @gotPush n m f mem stage | @gotLock n f mem stage
  | @takePushList n f mem stage =>
    exact hset fun _ => keepsUse_setStage rfl rfl rfl (by simp [Fetch.pushes, stage])
  | @pushNext n d f pushList page mem stage buf =>
    rw [pushed_eq_sent buf]
    exact hsent fun _ => keepsUse_setStage rfl rfl rfl (by simp [Fetch.pushes])
  | releasePush =>
    exact hsent fun _ => keepsUse_of_eq rfl rfl id
  | pendingGive =>
    exact hsent fun _ =>
      keepsUse_of_eq rfl rfl fun ⟨u, hmem, hrel⟩ => ⟨u, List.mem_cons_of_mem _ hmem, hrel⟩
  | @dirUnlock n u d msgs mem served call =>
    refine rel_afterDir hreceive Node.KeepsUse.refl fun _ => keepsUse_of_eq rfl rfl ?_
    rintro ⟨v, hv, hrel⟩
    by_cases hvu : v = u
    · subst hvu
      exact ⟨_, List.mem_cons_self, hrel⟩
    · exact ⟨v, List.mem_cons_of_mem _ ((List.mem_erase_of_ne hvu).2 hv), hrel⟩
  | @unlockReturn n u mem served =>
    refine hset fun hn => keepsUse_of_eq rfl rfl ?_
    rintro ⟨v, hv, hrel⟩
    have hvu : v ≠ u := by
      rintro rfl
      simp [Action.changesUse, hn, hrel] at huse
    exact ⟨v, (List.mem_erase_of_ne hvu).2 hv, hrel⟩
  | readStorage | pushArrive | beginEvict | evictLost | evictNone | evictAsk | evictReplace
  | evictDone | endEvict | dirEvict =>
    refine hset fun hn => ?_
    simp [Action.byPut, hn] at hput

theorem Step.pushes_kept [DecidableEq α] (hs : Step st a st') (hput : a.byPut me = false)
    (hdone : ∀ f, a ≠ .fetchDone me f) (h : ∃ f ∈ (st.nodes me).fetches, f.pushes = true) :
    ∃ f ∈ (st'.nodes me).fetches, f.pushes = true := by
  by_cases huse : a.changesUse me = false
  · exact (hs.keepsUse hput huse).pushes h
  · obtain ⟨f, hf, hpush⟩ := h
    cases hs with
    | lockLocalS | lockLocalX | lockAskS | lockAskX | releaseEnd | releaseUnlock | unlockReturn =>
      simp only [Action.changesUse, Bool.not_eq_false, decide_eq_true_eq] at huse
      first
      | obtain rfl := huse
      | obtain ⟨rfl, -⟩ := huse
      exact ⟨f, by simp [State.setNode, hf], hpush⟩
    | @fetchDone n g =>
      simp only [Action.changesUse, Bool.not_eq_false, decide_eq_true_eq] at huse
      exact absurd (by rw [huse]) (hdone g)
    | _ => simp [Action.changesUse] at huse

theorem lock_call {x : Bool} (h : st.lock n x = .next st') :
    ∃ lk b, (if x then (st.nodes n).lk.lockExclusive else (st.nodes n).lk.lockShared) =
        .next (lk, b) ∧ (st'.nodes n).lk = lk ∧ (st'.nodes n).unlocks = (st.nodes n).unlocks ∧
      (b = true → (st'.nodes n).fetches = ⟨x, .asking⟩ :: (st.nodes n).fetches) ∧
      (b = false → (st.nodes n).buffer.isSome = true) := by
  cases x with
  | false | true =>
    simp only [State.lock, State.afterLock, Bool.false_eq_true, if_true, if_false, bind_eq_next] at h ⊢
    obtain ⟨⟨lk, b⟩, hcall, h⟩ := h
    refine ⟨lk, b, hcall, ?_⟩
    cases b with
    | true =>
      obtain rfl := next.inj h
      simp [State.setNode]
    | false =>
      simp only [Bool.false_eq_true, if_false, bind_eq_next, cassert_eq_next, pure_def,
        next.injEq] at h
      obtain ⟨_, hbuf, rfl⟩ := h
      simp [State.setNode, hbuf]

/-- The steps of an eviction on `me`. -/
def Action.evictsAt (me : NodeId N) : Action N α → Bool
  | .beginEvict n | .evictCheck n | .dirEvict n _ | .evictReplace n | .evictDone n | .endEvict n =>
    n = me
  | _ => false

theorem Step.evict_frame [DecidableEq α] (hs : Step st a st') (ha : a.evictsAt me = true) :
    (st'.nodes me).fetches = (st.nodes me).fetches ∧
      (st'.nodes me).unlocks = (st.nodes me).unlocks ∧
      (st'.nodes me).lk.lock = (st.nodes me).lk.lock := by
  cases hs with
  | beginEvict | evictNone | evictAsk | dirEvict | evictReplace | evictDone | endEvict =>
    simp only [Action.evictsAt, decide_eq_true_eq] at ha
    subst ha
    simp [State.setEvict, State.setNode]
  | _ => cases ha

end Uses

end LazyRelease

namespace BufferPool

open Outcome LazyRelease Function

variable {N : Nat} {me : GPLM.NodeId N} {n : Nat} {s s' : LazyNode N}

/-- The put has read the page from storage. -/
def Put.reads (p : PageId) (q : Put N) : Bool := q.page = p ∧ q.src.isPush = false

namespace LazyNode

/-- The directory agrees to the eviction, or the victim has left the pool in the meantime. -/
def Agrees (me : GPLM.NodeId N) (s : LazyNode N) (q : Put N) : Prop :=
  match q.stage with
  | .asking _ victim lsn => s.pool.pageTable victim = none ∨
    match (s.protocol victim).step (.dirEvict me lsn) with
    | .next st => .agreed ∈ (st.nodes me).evicts
    | _ => True
  | _ => True

/-- The handler of NotifyPushPage finds the page in use. -/
def PushesUsed (me : GPLM.NodeId N) (s : LazyNode N) (p : PageId) :
    LazyRelease.Action N Unit → Prop
  | .notifyPush _ f => f.stage = .notifying me → (s.node me p).lk.lock ≠ 0
  | _ => True

/-- No eviction loses its victim or is refused, and no idle page is pushed for NotifyPushPage. -/
def KeepsEvictable (me : GPLM.NodeId N) (s : LazyNode N) (a : Action N) : Prop :=
  s.KeepsVictim a ∧
    match a with
    | .protocol p a => s.PushesUsed me p a
    | .askEvict q => s.Agrees me q
    | _ => True

instance (me : GPLM.NodeId N) (s : LazyNode N) (q : Put N) : Decidable (s.Agrees me q) :=
  match h : q.stage with
  | .asking _ victim lsn =>
    match h' : (s.protocol victim).step (.dirEvict me lsn) with
    | .next st => decidable_of_iff
        (s.pool.pageTable victim = none ∨ .agreed ∈ (st.nodes me).evicts)
        (by simp only [Agrees, h, h'])
    | .blocked | .abort => .isTrue (by simp [Agrees, h, h'])
  | .checking | .reserved _ | .choosing | .probing _ _ | .picked _ | .read _ _ | .giveUp _
  | .won _ _ | .begun _ _ | .chosen _ _ | .agreed _ _ | .replaced _ | .ending _ _ =>
    .isTrue (by simp only [Agrees, h])

instance (me : GPLM.NodeId N) (s : LazyNode N) (p : PageId) :
    (a : LazyRelease.Action N Unit) → Decidable (s.PushesUsed me p a)
  | .notifyPush _ f => inferInstanceAs
      (Decidable (f.stage = .notifying me → (s.node me p).lk.lock ≠ 0))
  | .lock .. | .dirLock .. | .readStorage .. | .gotPush .. | .gotLock .. | .takePushList ..
  | .pushNext .. | .fetchDone .. | .write .. | .writeUnlogged .. | .release .. | .releasePush ..
  | .releaseFinish .. | .pending .. | .pendingFinish .. | .dirUnlock .. | .unlockReturn ..
  | .pushArrive .. | .pushNotify .. | .lockSuccess .. | .beginEvict .. | .evictLost ..
  | .evictCheck .. | .dirEvict .. | .evictReplace .. | .evictDone .. | .endEvict .. =>
    .isTrue trivial

instance (me : GPLM.NodeId N) (s : LazyNode N) : (a : Action N) → Decidable (s.KeepsEvictable me a)
  | .protocol p a => inferInstanceAs
      (Decidable (s.KeepsVictim (.protocol p a) ∧ s.PushesUsed me p a))
  | .askEvict q => inferInstanceAs (Decidable (s.KeepsVictim (.askEvict q) ∧ s.Agrees me q))
  | .fetchPage .. | .beginPut .. | .checkFree .. | .insertFree .. | .startProbe .. | .probe ..
  | .readVictim .. | .tryBeginEvict .. | .endVictim .. | .readAgain .. | .checkEvict ..
  | .replace .. | .finishEvict .. | .endEvict .. =>
    inferInstanceAs (Decidable (s.KeepsVictim _ ∧ True))

/-- The fetch of page `p` has pinned the page, or has put it into a frame. -/
def Got (s : LazyNode N) (p : PageId) : Prop :=
  s.ready p = true ∨ ∃ q ∈ s.puts, q.reads p = true ∧ q.stage.inserted = true

/-- Fetches of a page that is not ready have at most one put. -/
structure GotInv (me : GPLM.NodeId N) (s : LazyNode N) : Prop where
  fetch : ∀ p, s.Got p → ∃ f ∈ (s.node me p).fetches, f.pushes = true
  single : ∀ p, s.puts.countP (Put.reads p) ≤ 1
  unready : ∀ q ∈ s.puts, q.src.isPush = false → s.ready q.page = false

theorem gotInv_init (n : Nat) : GotInv me (init n : LazyNode N) := by
  refine ⟨?_, fun _ => Nat.zero_le _, nofun⟩
  rintro p (hready | ⟨q, hq, -⟩)
  · cases hready
  · cases hq

variable {p : PageId}

theorem Got.congr (h : s'.Got p) (hready : s'.ready p = s.ready p)
    (hputs : ∀ q ∈ s'.puts, q.reads p = true → q.stage.inserted = true →
      ∃ q' ∈ s.puts, q'.reads p = true ∧ q'.stage.inserted = true) :
    s.Got p := by
  rcases h with hr | ⟨q, hq, hreads, hin⟩
  · exact .inl (hready ▸ hr)
  · exact .inr (hputs q hq hreads hin)

section Thread

variable {q : Put N}

theorem Got.of_move (h : s'.Got p) (mem : q ∈ s.puts) {stage : PutStage}
    (puts : s'.puts = movePut s.puts q (some stage)) (hready : s'.ready = s.ready)
    (inserted : stage.inserted = q.stage.inserted) : s.Got p := by
  refine h.congr (by rw [hready]) fun x hx hreads hin => ?_
  rw [puts] at hx
  rcases mem_movePut hx with hx | ⟨st, ⟨⟩, rfl⟩
  · exact ⟨x, hx, hreads, hin⟩
  · exact ⟨q, mem, hreads, inserted ▸ hin⟩

theorem GotInv.move (h : GotInv me s) (mem : q ∈ s.puts) {stage : PutStage}
    (puts : s'.puts = movePut s.puts q (some stage)) (hready : s'.ready = s.ready)
    (hfetches : ∀ p, (s'.node me p).fetches = (s.node me p).fetches)
    (inserted : stage.inserted = q.stage.inserted) : GotInv me s' := by
  refine ⟨fun p hgot => ?_, fun p => ?_, fun x hx hpush => ?_⟩
  · rw [hfetches]
    exact h.fetch p (hgot.of_move mem puts hready inserted)
  · have hcount := countP_movePut (t := some stage) mem (Put.reads p)
    have hsame : Put.reads p { q with stage := stage } = Put.reads p q := rfl
    rw [puts]
    rw [Option.elim_some, hsame] at hcount
    have := h.single p
    omega
  · rw [puts] at hx
    rw [hready]
    rcases mem_movePut hx with hx | ⟨st, ⟨⟩, rfl⟩
    · exact h.unready x hx hpush
    · exact h.unready q mem hpush

theorem GotInv.reads_unique (h : GotInv me s) (mem : q ∈ s.puts) (hpush : q.src.isPush = false)
    {x : Put N} (hx : x ∈ s.puts.erase q) : Put.reads q.page x = false := by
  have hcount := Counting.countP_erase_add (Put.reads q.page) mem
  have hq : Put.reads q.page q = true := by simp [Put.reads, hpush]
  have hle := h.single q.page
  rw [if_pos hq] at hcount
  have hzero : (s.puts.erase q).countP (Put.reads q.page) = 0 := by omega
  simpa using List.countP_eq_zero.1 hzero x hx

theorem GotInv.endPut (h : GotInv me s) (mem : q ∈ s.puts) {u : LazyNode N}
    (puts : u.puts = s.puts) (hready : u.ready = s.ready)
    (hfetch : ∀ p, s.Got p → ∃ f ∈ (u.node me p).fetches, f.pushes = true)
    (hget : q.src.isPush = false → ∃ f ∈ (u.node me q.page).fetches, f.pushes = true) :
    GotInv me (u.endPut q) := by
  have hready' : (u.endPut q).ready =
      if q.src.isPush then s.ready else update s.ready q.page true := by
    rw [← hready]
    rfl
  have hputs : (u.endPut q).puts = s.puts.erase q := by rw [← puts]; rfl
  refine ⟨fun p hgot => ?_, fun p => ?_, fun x hx hpush => ?_⟩
  · by_cases hp : q.src.isPush = false ∧ p = q.page
    · rw [hp.2]
      exact hget hp.1
    · refine hfetch p (hgot.congr ?_ fun x hx hreads hin => ?_)
      · rw [hready']
        split
        · rfl
        · rename_i hq
          rw [update_of_ne fun heq => hp ⟨by simpa using hq, heq⟩]
      · rw [hputs] at hx
        exact ⟨x, List.mem_of_mem_erase hx, hreads, hin⟩
  · rw [hputs]
    exact le_trans List.erase_sublist.countP_le (h.single p)
  · rw [hputs] at hx
    rw [hready']
    split
    · exact h.unready x (List.mem_of_mem_erase hx) hpush
    · rename_i hq
      have hne : x.page ≠ q.page := by
        intro heq
        have := h.reads_unique mem (by simpa using hq) hx
        simp [Put.reads, heq, hpush] at this
      rw [update_of_ne hne]
      exact h.unready x (List.mem_of_mem_erase hx) hpush

end Thread

variable {st : State N Unit}

theorem action_pushes {st' : State N Unit} {src : PutSource N}
    (taken : st.step (src.action me) = .next st') :
    (src.isPush = false → ∃ f ∈ (st'.nodes me).fetches, f.pushes = true) ∧
      ((∃ f ∈ (st.nodes me).fetches, f.pushes = true) →
        ∃ f ∈ (st'.nodes me).fetches, f.pushes = true) ∧
      (st'.nodes me).lk = (st.nodes me).lk ∧ (st'.nodes me).unlocks = (st.nodes me).unlocks ∧
      ((st.nodes me).fetches ≠ [] → (st'.nodes me).fetches ≠ []) := by
  cases src with
  | storage f k =>
    cases LazyRelease.step_cases taken with
    | readStorage mem stage =>
      refine ⟨fun _ => ⟨⟨f.x, .pushing []⟩, ?_, rfl⟩, fun _ => ⟨⟨f.x, .pushing []⟩, ?_, rfl⟩, ?_, ?_,
        fun _ => ?_⟩ <;> simp [State.setNode, Node.setStage]
  | push image =>
    cases LazyRelease.step_cases taken with
    | pushArrive mem buf =>
      refine ⟨(by rintro ⟨⟩), ?_, ?_, ?_, ?_⟩ <;> simp [State.setNode]

variable {v : PageId}

theorem node_setProtocol (h : s'.protocol = update s.protocol v st) :
    s'.node me p = if p = v then st.nodes me else s.node me p := by
  rw [node, node, h, update_apply]
  split <;> rfl

variable {a : LazyRelease.Action N Unit}

variable (me) in
theorem evict_node (taken : (s.protocol v).step a = .next st) (ha : a.evictsAt me = true)
    (p : PageId) :
    (node me (s.setProtocol v st) p).fetches = (s.node me p).fetches ∧
      (node me (s.setProtocol v st) p).unlocks = (s.node me p).unlocks ∧
      (node me (s.setProtocol v st) p).lk.lock = (s.node me p).lk.lock := by
  rw [node_setProtocol (s := s) (p := p) rfl]
  split
  · rename_i hp
    subst hp
    exact (LazyRelease.step_cases taken).evict_frame ha
  · exact ⟨rfl, rfl, rfl⟩

theorem readyAfter_of_ne (hv : v ≠ p) : s.readyAfter me p a v = s.ready v := by
  unfold readyAfter
  split
  · split
    · exact update_of_ne hv ..
    · rfl
  · rfl

theorem readyAfter_eq (h : ∀ f, a ≠ .fetchDone me f) : s.readyAfter me p a = s.ready := by
  unfold readyAfter
  split
  · rename_i m f
    rw [if_neg fun hm => h f (by rw [hm])]
  · rfl

theorem GotInv.protocolStep (h : GotInv me s) {pool : Pool}
    (left : s.leftToProtocol me p a = true) (taken : (s.protocol p).step a = .next st) :
    GotInv me { s.setProtocol p st with pool := pool, ready := s.readyAfter me p a } := by
  obtain ⟨hput, -⟩ := left_spec left
  have hs := LazyRelease.step_cases taken
  -- what is left to show is that the fetch stays, or that it was the end of the fetch
  by_cases hdone : ∃ f, a = .fetchDone me f
  · obtain ⟨f, rfl⟩ := hdone
    have hready : s.ready p = true := by simpa [leftToProtocol] using left
    have hafter : s.readyAfter me p (.fetchDone me f) = update s.ready p false := by
      simp [readyAfter]
    have hnone : ∀ q ∈ s.puts, q.reads p = true → False := by
      intro q hq hreads
      simp only [Put.reads, decide_eq_true_eq] at hreads
      have := h.unready q hq hreads.2
      rw [hreads.1, hready] at this
      cases this
    refine ⟨fun v hgot => ?_, h.single, fun q hq hpush => ?_⟩
    · have hv : v ≠ p := by
        rintro rfl
        rcases hgot with hr | ⟨q, hq, hreads, -⟩
        · have hr' : s.readyAfter me v (.fetchDone me f) v = true := hr
          rw [hafter, update_self] at hr'
          cases hr'
        · exact hnone q hq hreads
      rw [node_setProtocol (s := s) (p := v) rfl, if_neg hv]
      have hready' : s.readyAfter me p (.fetchDone me f) v = s.ready v := readyAfter_of_ne hv
      exact h.fetch v (hgot.congr hready' fun q hq hreads hin => ⟨q, hq, hreads, hin⟩)
    · show s.readyAfter me p (.fetchDone me f) q.page = _
      rw [hafter, update_apply]
      split
      · rfl
      · exact h.unready q hq hpush
  · have hafter : s.readyAfter me p a = s.ready := readyAfter_eq fun f ha => hdone ⟨f, ha⟩
    refine ⟨fun v hgot => ?_, h.single, fun q hq hpush => ?_⟩
    · have hgot' : s.Got v := hgot.congr (congrFun hafter v) fun q hq hreads hin =>
        ⟨q, hq, hreads, hin⟩
      rw [node_setProtocol (s := s) (p := v) rfl]
      split
      · rename_i hv
        subst hv
        obtain ⟨f, hf, hpush⟩ := h.fetch v hgot'
        exact (hs.pushes_kept hput fun f ha => hdone ⟨f, ha⟩) ⟨f, hf, hpush⟩
      · exact h.fetch v hgot'
    · rw [hafter]
      exact h.unready q hq hpush

theorem GotInv.step (h : GotInv me s) (hinv : Inv me n s) (hN : N < GPLM.EXCLUSIVE_LOCKED)
    {a : Action N} (ok : s.KeepsVictim a) (hs : Step me s a s') : GotInv me s' := by
  have hevict : ∀ {q : Put N} {stage : PutStage} {v : PageId} {st : State N Unit} {pool : Pool}
      {act : LazyRelease.Action N Unit}, q ∈ s.puts → (s.protocol v).step act = .next st →
      act.evictsAt me = true → stage.inserted = q.stage.inserted →
      GotInv me ({ s.setProtocol v st with pool := pool }.setPut q stage) := by
    intro q stage v st pool act mem taken hact hin
    exact h.move mem rfl rfl (fun p => (evict_node me taken hact p).1) hin
  cases hs with
  | protocol left taken call => exact h.protocolStep left taken
  | @fetchPage p f pool mem stage unready noPut call =>
    refine ⟨fun v hgot => ?_, h.single, fun q hq hpush => ?_⟩
    · by_cases hv : v = p
      · subst hv
        exact ⟨f, mem, by simp [Fetch.pushes, stage]⟩
      · refine h.fetch v (hgot.congr ?_ fun q hq hreads hin => ⟨q, hq, hreads, hin⟩)
        exact update_of_ne hv ..
    · show update s.ready p true q.page = false
      have hne : q.page ≠ p := by
        intro heq
        rw [noPut q hq heq] at hpush
        cases hpush
      rw [update_of_ne hne]
      exact h.unready q hq hpush
  | @beginPut p src hand =>
    refine ⟨fun v hgot => ?_, fun v => ?_, fun q hq hpush => ?_⟩
    · refine h.fetch v (hgot.congr rfl fun q hq hreads hin => ?_)
      rcases List.mem_cons.1 hq with rfl | hq
      · cases hin
      · exact ⟨q, hq, hreads, hin⟩
    · rw [List.countP_cons]
      cases src with
      | push image =>
        simpa [Put.reads, PutSource.isPush] using h.single v
      | storage f k =>
        simp only [atHand, Bool.and_eq_true, decide_eq_true_eq] at hand
        by_cases hv : p = v
        · subst hv
          have hzero : s.puts.countP (Put.reads p) = 0 := by
            refine List.countP_eq_zero.2 fun q hq hreads => ?_
            simp only [Put.reads, decide_eq_true_eq] at hreads
            have := hand.1.2 q hq hreads.1
            rw [hreads.2] at this
            cases this
          split <;> omega
        · have hnot : ¬ Put.reads v ({ page := p, src := .storage f k, stage := .checking } : Put N)
              = true := by simp [Put.reads, hv]
          rw [if_neg hnot]
          exact h.single v
    · rcases List.mem_cons.1 hq with rfl | hq
      · cases src with
        | push image => cases hpush
        | storage f k =>
          simp only [atHand, Bool.and_eq_true, decide_eq_true_eq] at hand
          obtain ⟨⟨hmem, -⟩, hstage⟩ := hand
          by_contra hready
          obtain ⟨g, hg, hpushes⟩ := h.fetch p (.inl (by simpa using hready))
          obtain ⟨ha, -⟩ := ((hinv.page hN p).lock.node me).fetch_of_mem hmem
          have hgf : g = f := by
            have hg' : g ∈ ((s.protocol p).nodes me).fetches := hg
            rw [ha.fetches] at hg'
            exact List.mem_singleton.1 hg'
          subst hgf
          unfold Fetch.pushes at hpushes
          split at hstage
          · rename_i hst
            rw [hst] at hpushes
            cases hpushes
          · cases hstage
      · exact h.unready q hq hpush
  | @checkFree q pool frame mem stage =>
    exact h.move mem rfl rfl (fun _ => rfl) (by rw [stage]; cases frame <;> rfl)
  | startProbe mem stage | probeFound mem stage | probeNext mem stage | readNone mem stage
  | readVictim mem stage | lost mem stage | endGiveUp mem stage | endWon mem stage
  | readAgain mem stage => exact h.move mem rfl rfl (fun _ => rfl) (by rw [stage]; rfl)
  | @readLost q f victim st mem stage page => simp [KeepsVictim, FindsVictim, stage, page] at ok
  | won mem stage taken | checkNone mem stage _ taken | agreed mem stage taken
  | refused mem stage taken | finishEvict mem stage taken | retry mem stage taken
  | checkAsk mem stage _ _ _ taken =>
    exact hevict mem taken (by simp [Action.evictsAt]) (by rw [stage]; rfl)
  | @insertFree q f pool st mem stage call taken =>
    obtain ⟨hget, hkeep, -⟩ := action_pushes taken
    refine h.endPut mem (u := { s.setProtocol q.page st with pool := pool }) rfl rfl
      (fun p hgot => ?_) fun hpush => ?_
    · rw [node_setProtocol (s := s) (p := p) rfl]
      split
      · rename_i hp
        subst hp
        exact hkeep (h.fetch _ hgot)
      · exact h.fetch p hgot
    · rw [node_setProtocol (s := s) (p := q.page) rfl, if_pos rfl]
      exact hget hpush
  | @endEvict q victim st mem stage taken =>
    have hsame : ∀ p, (node me (s.setProtocol victim st) p).fetches = (s.node me p).fetches :=
      fun p => (evict_node me taken (by simp [Action.evictsAt]) p).1
    refine h.endPut mem (u := s.setProtocol victim st) rfl rfl (fun p hgot => ?_) fun hpush => ?_
    · rw [hsame]
      exact h.fetch p hgot
    · rw [hsame]
      exact h.fetch q.page (.inr ⟨q, mem, by simp [Put.reads, hpush], by rw [stage]; rfl⟩)
  | @replace q f victim pool st st' mem stage call drop taken =>
    obtain ⟨hget, hkeep, -⟩ := action_pushes taken
    have hdrop : ∀ p, (node me (s.setProtocol victim st) p).fetches = (s.node me p).fetches :=
      fun p => (evict_node me drop (by simp [Action.evictsAt]) p).1
    refine ⟨fun p hgot => ?_, fun p => ?_, fun x hx hpush => ?_⟩
    · rw [node_setProtocol (s := s.setProtocol victim st) (p := p) rfl]
      by_cases hp : p = q.page ∧ q.src.isPush = false
      · rw [if_pos hp.1]
        exact hget hp.2
      · have hgot' : s.Got p := by
          refine hgot.congr rfl fun x hx hreads hin => ?_
          rcases List.mem_cons.1 hx with rfl | hx
          · simp only [Put.reads, decide_eq_true_eq] at hreads
            exact absurd ⟨hreads.1.symm, hreads.2⟩ hp
          · exact ⟨x, List.mem_of_mem_erase hx, hreads, hin⟩
        have hold := h.fetch p hgot'
        rw [← hdrop] at hold
        split
        · rename_i hpq
          subst hpq
          exact hkeep hold
        · exact hold
    · exact (le_of_eq (Counting.countP_replace mem rfl)).trans (h.single p)
    · rcases List.mem_cons.1 hx with rfl | hx
      · exact h.unready q mem hpush
      · exact h.unready x (List.mem_of_mem_erase hx) hpush

/-- The frame that the thread has marked in `tryVictim`. -/
def marks (f : FrameId) (q : Put N) : Bool :=
  match q.stage with
  | .picked g | .read g _ | .giveUp g | .won g _ => g = f
  | _ => false

/-- The thread takes page `p` out of frame `f`. Before the second read it may be any page. -/
def takes (p : PageId) (f : FrameId) (q : Put N) : Bool :=
  match q.stage with
  | .won g _ | .begun g _ => g = f
  | .chosen g victim | .asking g victim _ | .agreed g victim => g = f ∧ victim = p
  | _ => false

/-- The frames of the idle pages are in the LRU lists, and no others. -/
structure IdleInv (me : GPLM.NodeId N) (s : LazyNode N) : Prop where
  idle : ∀ p f, s.pool.pageTable p = some f → (s.node me p).lk.lock = 0 →
    f ∈ s.pool.replacer ∧ (s.pool.pages f).pinCount = 0 ∨ (s.node me p).Dropping ∨
      ∃ q ∈ s.puts, takes p f q = true
  listed : ∀ f ∈ s.pool.replacer, ∃ p, s.pool.pageTable p = some f ∧
    (s.pool.pages f).pinCount = 0 ∧
      ((s.node me p).lk.lock = 0 ∨ (s.node me p).fetches ≠ [] ∧ ¬ s.Got p)
  flags : ∀ f, s.puts.countP (marks f) = (s.pool.replacer.isEvicting f).toNat

theorem idleInv_init (n : Nat) : IdleInv me (init n : LazyNode N) := ⟨nofun, nofun, fun _ => rfl⟩

theorem IdleInv.page (h : IdleInv me s) (hinv : Inv me n s) (puts : s'.puts = s.puts)
    (hnode : ∀ v, v ≠ p → s'.node me v = s.node me v)
    (hready : ∀ v, v ≠ p → s'.ready v = s.ready v)
    (table : ∀ v, v ≠ p → s'.pool.pageTable v = s.pool.pageTable v)
    (frame : ∀ g, s.pool.pageTable p ≠ some g → (g ∈ s'.pool.replacer ↔ g ∈ s.pool.replacer) ∧
      (s'.pool.pages g).pinCount = (s.pool.pages g).pinCount)
    (flags : s'.pool.replacer.isEvicting = s.pool.replacer.isEvicting)
    (idle : ∀ f, s'.pool.pageTable p = some f → (s'.node me p).lk.lock = 0 → f ∈ s'.pool.replacer ∧
      (s'.pool.pages f).pinCount = 0 ∨ (s'.node me p).Dropping ∨ ∃ q ∈ s.puts, takes p f q = true)
    (listed : ∀ f ∈ s'.pool.replacer, s.pool.pageTable p = some f → s'.pool.pageTable p = some f ∧
      (s'.pool.pages f).pinCount = 0 ∧ ((s'.node me p).lk.lock = 0 ∨ (s'.node me p).fetches ≠ [] ∧
      ¬ s'.Got p)) :
    IdleInv me s' := by
  have hgot : ∀ {v}, v ≠ p → s'.Got v → s.Got v := fun hv hgot =>
    hgot.congr (hready _ hv) fun q hq hreads hin => ⟨q, puts ▸ hq, hreads, hin⟩
  refine ⟨fun v f hf hl => ?_, fun f hf => ?_, fun f => by rw [puts, flags]; exact h.flags f⟩
  · rw [puts]
    by_cases hv : v = p
    · subst hv
      exact idle f hf hl
    · rw [table v hv] at hf
      rw [hnode v hv] at hl ⊢
      -- the frame of another page
      have hne : s.pool.pageTable p ≠ some f := fun hp => hv (hinv.pool.owned.page_unique hf hp)
      rw [(frame f hne).1, (frame f hne).2]
      exact h.idle v f hf hl
  · by_cases hp : s.pool.pageTable p = some f
    · exact ⟨p, listed f hf hp⟩
    · obtain ⟨hmem, hpin⟩ := frame f hp
      obtain ⟨v, hv, hzero, huse⟩ := h.listed f (hmem.1 hf)
      have hvp : v ≠ p := by
        rintro rfl
        exact hp hv
      refine ⟨v, by rw [table v hvp, hv], hpin.trans hzero, ?_⟩
      rw [hnode v hvp]
      exact huse.imp_right fun huse => ⟨huse.1, fun hg => huse.2 (hgot hvp hg)⟩

section Thread

variable {q : Put N}

theorem IdleInv.move (h : IdleInv me s) (mem : q ∈ s.puts) {stage : PutStage}
    (puts : s'.puts = movePut s.puts q (some stage)) (hready : s'.ready = s.ready)
    (hnode : ∀ p, (s'.node me p).fetches = (s.node me p).fetches ∧
      (s'.node me p).unlocks = (s.node me p).unlocks ∧
      (s'.node me p).lk.lock = (s.node me p).lk.lock)
    (table : s'.pool.pageTable = s.pool.pageTable)
    (inserted : stage.inserted = q.stage.inserted)
    (marked : ∀ f, (marks f { q with stage := stage }).toNat +
        (s.pool.replacer.isEvicting f).toNat =
      (marks f q).toNat + (s'.pool.replacer.isEvicting f).toNat)
    (kept : ∀ p f, s.pool.pageTable p = some f →
      f ∈ s.pool.replacer ∧ (s.pool.pages f).pinCount = 0 →
        f ∈ s'.pool.replacer ∧ (s'.pool.pages f).pinCount = 0 ∨
          takes p f { q with stage := stage } = true)
    (taken : ∀ p f, s.pool.pageTable p = some f → takes p f q = true →
      takes p f { q with stage := stage } = true)
    (listed : ∀ f ∈ s'.pool.replacer, f ∈ s.pool.replacer ∧
      (s'.pool.pages f).pinCount = (s.pool.pages f).pinCount) : IdleInv me s' := by
  have hnew : { q with stage := stage } ∈ s'.puts := by
    rw [puts]
    exact List.mem_cons_self
  have hgot : ∀ {p}, s'.Got p → s.Got p := fun hgot => hgot.of_move mem puts hready inserted
  refine ⟨fun p f hf hl => ?_, fun f hf => ?_, fun f => ?_⟩
  · rw [table] at hf
    obtain ⟨-, hunlocks, hlock⟩ := hnode p
    rw [hlock] at hl
    rcases h.idle p f hf hl with hidle | ⟨u, hu, hrel⟩ | ⟨x, hx, htakes⟩
    · rcases kept p f hf hidle with hidle | htakes
      · exact .inl hidle
      · exact .inr (.inr ⟨_, hnew, htakes⟩)
    · exact .inr (.inl ⟨u, hunlocks ▸ hu, hrel⟩)
    · refine .inr (.inr ?_)
      by_cases hxq : x = q
      · subst hxq
        exact ⟨_, hnew, taken p f hf htakes⟩
      · refine ⟨x, ?_, htakes⟩
        rw [puts]
        exact List.mem_cons_of_mem _ ((List.mem_erase_of_ne hxq).2 hx)
  · obtain ⟨hmem, hpin⟩ := listed f hf
    obtain ⟨p, hp, hzero, huse⟩ := h.listed f hmem
    obtain ⟨hfetches, -, hlock⟩ := hnode p
    refine ⟨p, by rw [table, hp], hpin.trans hzero, ?_⟩
    rw [hlock, hfetches]
    exact huse.imp_right fun huse => ⟨huse.1, fun hg => huse.2 (hgot hg)⟩
  · have hcount := countP_movePut (t := some stage) mem (marks f)
    have hmarked := marked f
    have hold := h.flags f
    rw [puts]
    rw [Option.elim_some] at hcount
    cases h1 : marks f q <;> cases h2 : marks f { q with stage := stage } <;>
      simp only [h1, h2, Bool.toNat_true, Bool.toNat_false, Bool.false_eq_true, if_true, if_false]
        at hcount hmarked <;> omega

end Thread

theorem lock_of_fetch (h : PageInv st) {f : Fetch N} (mem : f ∈ (st.nodes me).fetches) :
    (st.nodes me).lk.lock ≠ 0 := by
  obtain ⟨ha, -⟩ := (h.lock.node me).fetch_of_mem mem
  rw [ha.lock]
  split
  · decide
  · decide

theorem lock_of_release (h : PageInv st) {r : Release} (mem : r ∈ (st.nodes me).releases) :
    (st.nodes me).lk.lock ≠ 0 ∧ (st.nodes me).fetches = [] := by
  have hi := (h.lock.node me).idle_of_release mem
  exact ⟨hi.users.lock_ne_zero mem, hi.fetches⟩

variable {f : FrameId}

section Protocol

variable {p : PageId} {a : LazyRelease.Action N Unit} {st : State N Unit} {pool : Pool}

/-- The state after a step of the protocol of page `p`. -/
abbrev afterProtocol (me : GPLM.NodeId N) (s : LazyNode N) (p : PageId)
    (a : LazyRelease.Action N Unit) (st : State N Unit) (pool : Pool) : LazyNode N :=
  { s.setProtocol p st with pool := pool, ready := s.readyAfter me p a }

theorem node_afterProtocol : (s.afterProtocol me p a st pool).node me p = st.nodes me := by
  rw [node_setProtocol (s := s) (p := p) rfl, if_pos rfl]

theorem node_afterProtocol_of_ne (hv : v ≠ p) :
    (s.afterProtocol me p a st pool).node me v = s.node me v := by
  rw [node_setProtocol (s := s) (p := v) rfl, if_neg hv]

theorem IdleInv.uncalled (h : IdleInv me s) (hinv : Inv me n s)
    (hlock : (st.nodes me).lk.lock = 0 → (s.node me p).lk.lock = 0 ∨ (st.nodes me).Dropping)
    (hdrop : (s.node me p).Dropping → (st.nodes me).Dropping)
    (huse : ∀ f ∈ s.pool.replacer, s.pool.pageTable p = some f → (s.node me p).lk.lock = 0 ∨
        (s.node me p).fetches ≠ [] ∧ ¬ s.Got p →
      (st.nodes me).lk.lock = 0 ∨ (st.nodes me).fetches ≠ [] ∧
        ¬ (s.afterProtocol me p a st s.pool).Got p) :
    IdleInv me (s.afterProtocol me p a st s.pool) := by
  refine h.page hinv (p := p) rfl (fun v hv => node_afterProtocol_of_ne hv)
    (fun v hv => readyAfter_of_ne hv) (fun _ _ => rfl) (fun _ _ => ⟨Iff.rfl, rfl⟩) rfl
    (fun f hf hl => ?_) fun f hf hp => ?_
  · rw [node_afterProtocol] at hl ⊢
    rcases hlock hl with hl | hdropping
    · rcases h.idle p f hf hl with hidle | hdropping | htakes
      · exact .inl hidle
      · exact .inr (.inl (hdrop hdropping))
      · exact .inr (.inr htakes)
    · exact .inr (.inl hdropping)
  · obtain ⟨v, hv, hzero, hused⟩ := h.listed f hf
    obtain rfl : v = p := hinv.pool.owned.page_unique hv hp
    rw [node_afterProtocol]
    exact ⟨hp, hzero, huse f hf hp hused⟩

theorem IdleInv.pinned (h : IdleInv me s) (hinv : Inv me n s) (puts : s'.puts = s.puts)
    (hnode : ∀ v, v ≠ p → s'.node me v = s.node me v)
    (hready : ∀ v, v ≠ p → s'.ready v = s.ready v) (hf : s.pool.pageTable p = some f)
    (hpin : s.pool.Pinned f s'.pool) (hlock : (s'.node me p).lk.lock ≠ 0) : IdleInv me s' := by
  refine h.page hinv puts hnode hready (fun v _ => congrFun hpin.same.pageTable v) (fun g hg => ?_)
    hpin.flags (fun g hg hl => absurd hl hlock) fun g hg hp => ?_
  · have hne : g ≠ f := fun heq => hg (heq ▸ hf)
    exact ⟨(hpin.mem g).trans (by simp [hne]), by rw [hpin.pin, if_neg hne, Nat.add_zero]⟩
  · -- the frame has left the lists
    obtain rfl : f = g := Option.some.inj (hf.symm.trans hp)
    obtain ⟨hmem, hnot⟩ := (hpin.mem f).1 hg
    obtain ⟨v, -, hzero, -⟩ := h.listed f hmem
    exact absurd ⟨rfl, hzero⟩ hnot

theorem IdleInv.unpinned (h : IdleInv me s) (hinv : Inv me n s) (hf : s.pool.pageTable p = some f)
    (hunpin : s.pool.Unpinned f pool) (hlock : (st.nodes me).lk.lock = 0) :
    IdleInv me (s.afterProtocol me p a st pool) := by
  have hzero : (pool.pages f).pinCount = 0 := by rw [hunpin.pin, if_pos rfl]
  refine h.page hinv (p := p) rfl (fun v hv => node_afterProtocol_of_ne hv)
    (fun v hv => readyAfter_of_ne hv) (fun v _ => congrFun hunpin.same.pageTable v) (fun g hg => ?_)
    hunpin.flags (fun g hg hl => ?_) fun g hg hp => ?_
  · have hne : g ≠ f := fun heq => hg (heq ▸ hf)
    refine ⟨(hunpin.mem g).trans (by simp [hne]), ?_⟩
    rw [show _ = _ from hunpin.pin g, if_neg hne]
  · obtain rfl : f = g := by
      have hg' : pool.pageTable p = some g := hg
      rw [hunpin.same.pageTable, hf] at hg'
      exact Option.some.inj hg'
    exact .inl ⟨(hunpin.mem f).2 (.inl rfl), hzero⟩
  · obtain rfl : f = g := Option.some.inj (hf.symm.trans hp)
    refine ⟨(congrFun hunpin.same.pageTable p).trans hf, hzero, .inl ?_⟩
    rw [node_afterProtocol]
    exact hlock

theorem IdleInv.released (h : IdleInv me s) (hinv : Inv me n s) (hf : s.pool.pageTable p = some f)
    (hrel : s.pool.Released p f pool) : IdleInv me (s.afterProtocol me p a st pool) := by
  refine h.page hinv (p := p) rfl (fun v hv => node_afterProtocol_of_ne hv)
    (fun v hv => readyAfter_of_ne hv) (fun v hv => ?_) (fun g hg => ?_) hrel.flags
    (fun g hg hl => ?_) fun g hg hp => ?_
  · rw [hrel.pageTable, update_of_ne hv]
  · have hne : g ≠ f := fun heq => hg (heq ▸ hf)
    exact ⟨(hrel.mem g).trans (by simp [hne]), hrel.pin g hne⟩
  · have hg' : pool.pageTable p = some g := hg
    rw [hrel.pageTable, update_self] at hg'
    cases hg'
  · obtain rfl : f = g := Option.some.inj (hf.symm.trans hp)
    exact absurd rfl ((hrel.mem f).1 hg).2

theorem GotInv.lock_of_got (h : GotInv me s) (hinv : Inv me n s) (hN : N < GPLM.EXCLUSIVE_LOCKED)
    (hgot : s.Got p) : (s.node me p).lk.lock ≠ 0 := by
  obtain ⟨f, hf, -⟩ := h.fetch p hgot
  exact lock_of_fetch (hinv.page hN p) hf

theorem IdleInv.protocolStep (h : IdleInv me s) (hgot : GotInv me s) (hinv : Inv me n s)
    (hN : N < GPLM.EXCLUSIVE_LOCKED) (used : s.PushesUsed me p a)
    (left : s.leftToProtocol me p a = true) (taken : (s.protocol p).step a = .next st)
    (call : s.poolCall me p a = .next pool) : IdleInv me (s.afterProtocol me p a st pool) := by
  obtain ⟨hput, -⟩ := left_spec left
  have hs := LazyRelease.step_cases taken
  have hpage := hinv.page hN p
  have hsame : (∀ f, a ≠ .fetchDone me f) →
      (s.afterProtocol me p a st s.pool).Got p → s.Got p := fun hready hgot =>
    hgot.congr (congrFun (readyAfter_eq hready) p) fun q hq hreads hin => ⟨q, hq, hreads, hin⟩
  -- a step without a call that leaves the users alone
  have hplain : s.poolCall me p a = .next s.pool → a.changesUse me = false →
      IdleInv me (s.afterProtocol me p a st pool) := by
    intro hcall huse
    obtain rfl : s.pool = pool := next.inj (hcall.symm.trans call)
    have hkeep := hs.keepsUse hput huse
    have hready : ∀ f, a ≠ .fetchDone me f := by
      rintro f rfl
      simp [Action.changesUse] at huse
    refine h.uncalled hinv (fun h0 => .inl (hkeep.lock ▸ h0)) hkeep.dropping fun f _ _ hold => ?_
    rcases hold with h0 | ⟨hfetches, hnot⟩
    · exact .inl (hkeep.lock.trans h0)
    · exact .inr ⟨hkeep.fetches hfetches, fun hg => hnot (hsame hready hg)⟩
  -- a step that pins the page
  have hpin : s.poolCall me p a = s.pool.fetchPage p → (s.node me p).buffer ≠ none →
      (st.nodes me).lk.lock ≠ 0 → IdleInv me (s.afterProtocol me p a st pool) := by
    intro hcall hb hlock
    obtain ⟨f, hf⟩ := hinv.mapped_of_buffer hb
    obtain ⟨pool', hcall', -, hpinned⟩ := hinv.pool.fetchPage hf
    obtain rfl : pool' = pool := next.inj ((hcall'.symm.trans hcall.symm).trans call)
    refine h.pinned hinv rfl (fun v hv => node_afterProtocol_of_ne hv)
      (fun v hv => readyAfter_of_ne hv) hf hpinned ?_
    rwa [node_afterProtocol]
  cases a with
  | lock m x =>
    by_cases hm : m = me
    · subst hm
      have hready : ∀ f, (.lock m x : LazyRelease.Action N Unit) ≠ .fetchDone m f := (by simp)
      obtain ⟨lk, b, hlk, hnode, hunlocks, hask, hlocal⟩ := lock_call taken
      have hlocked : lk.lock ≠ 0 ∧ ((s.protocol p).nodes m).lk.Quiet := by
        cases x with
        | false =>
          obtain ⟨hquiet, -, -, rfl⟩ := LRLocalPageLock.lockShared_next hlk
          exact ⟨Nat.succ_ne_zero _, hquiet⟩
        | true =>
          obtain ⟨hquiet, -, -, rfl⟩ := LRLocalPageLock.lockExclusive_next hlk
          exact ⟨by simp [GPLM.EXCLUSIVE_LOCKED], hquiet⟩
      cases b with
      | true =>
        -- the directory is asked, and the page stays as it is for now
        obtain rfl : s.pool = pool := by
          simp only [poolCall, hlk] at call
          exact next.inj call
        have hi := (hpage.lock.node m).idle hlocked.2.not_granting
        refine h.uncalled hinv (fun h0 => ?_) ?_ fun _ _ _ _ => .inr ⟨by simp [hask rfl], ?_⟩
        · rw [hnode] at h0
          exact absurd h0 hlocked.1
        · rintro ⟨u, hu, hrel⟩
          exact ⟨u, by rw [hunlocks]; exact hu, hrel⟩
        · intro hg
          obtain ⟨f, hf, -⟩ := hgot.fetch p (hsame hready hg)
          have hf' : f ∈ ((s.protocol p).nodes m).fetches := hf
          rw [hi.fetches] at hf'
          cases hf'
      | false =>
        refine hpin ?_ (Option.isSome_iff_ne_none.1 (hlocal rfl)) ?_
        · simp [poolCall, hlk]
        · rw [hnode]
          exact hlocked.1
    · refine hplain ?_ (by simp [Action.changesUse, hm])
      simp only [poolCall, hm, if_false]
      split <;> rfl
  | notifyPush m f =>
    simp only [poolCall] at hplain hpin
    cases hstage : f.stage with
    | notifying k =>
      simp only [hstage] at hplain hpin
      by_cases hk : k = me
      · subst hk
        refine hpin (by simp) ?_ ?_
        · cases hs with
          | notifyPush mem stage buf ne =>
            obtain rfl := FetchStage.notifying.inj (hstage.symm.trans stage)
            exact fun hnone => by cases buf.symm.trans hnone
        · rw [(hs.keepsUse hput rfl).lock]
          exact used hstage
      · exact hplain (by simp [hk]) rfl
    | _ => exact hplain (by simp [hstage]) rfl
  | pushNext m f =>
    simp only [poolCall] at hplain hpin
    by_cases hm : m = me
    · subst hm
      cases hs with
      | pushNext mem stage buf ne =>
        refine hpin (by simp) ?_ ?_
        · exact fun hnone => by cases buf.symm.trans hnone
        · have hlock : _ = ((s.protocol p).nodes m).lk.lock :=
            ((Step.pushNext mem stage buf ne).keepsUse rfl rfl).lock
          rw [hlock]
          exact lock_of_fetch hpage mem
    · exact hplain (by simp [hm]) rfl
  | releasePush m r =>
    simp only [poolCall] at hplain hpin
    split at hpin
    · rename_i hm
      obtain ⟨rfl, -⟩ := hm
      have hmem : r ∈ ((s.protocol p).nodes m).releases := by
        cases hs <;> assumption
      refine hpin rfl (buffer_of_release hpage hmem) ?_
      have hlock : (st.nodes m).lk.lock = ((s.protocol p).nodes m).lk.lock :=
        (hs.keepsUse rfl rfl).lock
      rw [hlock]
      exact (lock_of_release hpage hmem).1
    · exact hplain (if_neg ‹_›) rfl
  | releaseFinish m r =>
    by_cases hm : m = me
    · subst hm
      have hmem : r ∈ ((s.protocol p).nodes m).releases := by
        cases hs <;> assumption
      obtain ⟨hne, hnil⟩ := lock_of_release hpage hmem
      -- before the release the frame was in no list
      have hunlisted : ∀ {P : Prop}, (s.node m p).lk.lock = 0 ∨ (s.node m p).fetches ≠ [] ∧
          ¬ s.Got p → P := fun hold => by
        rcases hold with h0 | ⟨hfetches, -⟩
        · exact absurd h0 hne
        · exact absurd hnil hfetches
      simp only [poolCall, true_and] at call
      cases hs with
      | @releaseEnd _ _ b mem pushed keeps =>
        have hlock : (((s.protocol p).setNode m { (s.protocol p).nodes m with
            lk := (r.unlock b ((s.protocol p).nodes m).lk).unlockMtx
            releases := ((s.protocol p).nodes m).releases.erase r }).nodes m).lk.lock =
            if r.x then 0 else ((s.protocol p).nodes m).lk.lock - 1 := by
          simp only [State.setNode, update_self]
          exact (r.unlocked_unlock b _).lock
        by_cases hlast : r.x = true ∨ (s.node m p).lk.lock - 1 = 0
        · rw [if_pos ⟨keeps, hlast⟩] at call
          obtain ⟨f, hf⟩ := hinv.mapped_of_buffer (buffer_of_release hpage hmem)
          obtain ⟨pool', hcall', -, hunpinned⟩ := hinv.pool.unpinPage hf
          obtain rfl : pool' = pool := next.inj (hcall'.symm.trans call)
          refine h.unpinned hinv hf hunpinned (hlock.trans ?_)
          rcases hlast with hx | h0
          · rw [if_pos hx]
          · split
            · rfl
            · exact h0
        · rw [if_neg fun hc => hlast hc.2] at call
          obtain rfl : s.pool = pool := next.inj call
          refine h.uncalled hinv (fun h0 => ?_) ?_ fun _ _ _ hold => hunlisted hold
          · rw [hlock] at h0
            split at h0
            · exact absurd (.inl ‹_›) hlast
            · exact absurd (.inr h0) hlast
          · rintro ⟨u, hu, hrel⟩
            exact ⟨u, by simpa [State.setNode, node] using hu, hrel⟩
      | @releaseUnlock _ _ b mem pushed gives =>
        rw [if_neg fun hc => gives hc.1] at call
        obtain rfl : s.pool = pool := next.inj call
        have hdropping : (((s.protocol p).setNode m { (s.protocol p).nodes m with
            lk := r.unlock b ((s.protocol p).nodes m).lk
            releases := ((s.protocol p).nodes m).releases.erase r
            unlocks := ⟨true, false⟩ :: ((s.protocol p).nodes m).unlocks }).nodes m).Dropping :=
          ⟨⟨true, false⟩, by simp [State.setNode], rfl⟩
        exact h.uncalled hinv (fun _ => .inr hdropping) (fun _ => hdropping)
          fun _ _ _ hold => hunlisted hold
    · exact hplain (by simp [poolCall, hm]) (by simp [Action.changesUse, hm])
  | pendingFinish m ph =>
    by_cases hm : m = me ∧ 0 < ph.unlockRemote
    · obtain ⟨rfl, hgives⟩ := hm
      have hmem : ph ∈ ((s.protocol p).nodes m).handlers := by
        cases hs <;> assumption
      obtain ⟨f, hf⟩ := hinv.mapped_of_buffer ((hpage.presence m).giving ph hmem hgives)
      simp only [poolCall, hgives, and_self, if_true] at call
      split at call
      · obtain ⟨pool', hcall', -, hreleased⟩ := hinv.pool.releasePage hf
        obtain rfl : pool' = pool := next.inj (hcall'.symm.trans call)
        exact h.released hinv hf hreleased
      · obtain ⟨p₁, hcall₁, hinv₁, hpinned⟩ := hinv.pool.fetchPage hf
        obtain ⟨p₂, hcall₂, -, hreleased⟩ := hinv₁.releasePage (p := p) (f := f)
          (by rw [hpinned.same.pageTable, hf])
        rw [hcall₁, next_bind] at call
        obtain rfl : p₂ = pool := next.inj (hcall₂.symm.trans call)
        exact h.released hinv hf (hpinned.released hreleased)
    · exact hplain (by simp [poolCall, hm]) rfl
  | unlockReturn m u =>
    by_cases hm : m = me ∧ u.fromRelease = true
    · obtain ⟨rfl, hrel⟩ := hm
      have hmem : u ∈ ((s.protocol p).nodes m).unlocks := by
        cases hs
        assumption
      obtain ⟨f, hf⟩ := hinv.mapped_of_buffer ((hpage.presence m).release u hmem hrel).1
      simp only [poolCall, hrel, and_self, if_true] at call
      obtain ⟨pool', hcall', -, hreleased⟩ := hinv.pool.releasePage hf
      obtain rfl : pool' = pool := next.inj (hcall'.symm.trans call)
      exact h.released hinv hf hreleased
    · exact hplain (by simp [poolCall, hm]) (by simpa [Action.changesUse] using hm)
  | fetchDone m f =>
    by_cases hm : m = me
    · subst hm
      obtain rfl : s.pool = pool := next.inj call
      have hready : s.ready p = true := by simpa [leftToProtocol] using left
      have hne := hgot.lock_of_got hinv hN (.inl hready)
      cases hs with
      | fetchDone mem stage =>
        refine h.uncalled hinv (fun h0 => ?_) ?_ fun g _ _ hold => ?_
        · exact absurd (by simpa [State.setNode, node] using h0) hne
        · rintro ⟨u, hu, hrel⟩
          exact ⟨u, by simpa [State.setNode, node] using hu, hrel⟩
        · rcases hold with h0 | ⟨-, hnot⟩
          · exact absurd h0 hne
          · exact absurd (.inl hready) hnot
    · exact hplain rfl (by simp [Action.changesUse, hm])
  | _ => exact hplain rfl rfl

end Protocol

/-- A page that an eviction no longer finds a lock on has left the pool. -/
theorem absent_of_evictNone (h : PageInv st) (mem : .chosen ∈ (st.nodes me).evicts)
    (free : (st.nodes me).lk.mutex.held = false) (mode : (st.nodes me).lk.remoteMode = .none) :
    (st.nodes me).buffer = none := by
  obtain ⟨heq, -⟩ := (h.lock.node me).evicts_eq mem
  have hi := (h.lock.node me).idle_of_evict mem
  obtain ⟨-, hhandlers, hunlocks⟩ := (h.mutex me).releases_of_free free
  have hgiving : (st.nodes me).giving = 0 := by simp [Node.giving, hhandlers, hunlocks]
  by_contra hb
  rcases (h.coherent.copy me).listed hb with hstale | hholder | hin
  · rcases hstale with ⟨u, hu, -⟩ | hagreed
    · simp [hunlocks] at hu
    · simp [heq] at hagreed
  · exact (h.presence me).mode hi.fetches hholder hgiving mode
  · have := pushes_add_arrived (h.push.inbound_of_idle hi)
    omega

theorem IdleInv.flag_set (h : IdleInv me s) {q : Put N} (mem : q ∈ s.puts)
    (hmarks : marks f q = true) : s.pool.replacer.isEvicting f = true := by
  have hpos : 0 < s.puts.countP (marks f) := List.countP_pos_iff.2 ⟨q, mem, hmarks⟩
  rw [h.flags] at hpos
  cases hflag : s.pool.replacer.isEvicting f with
  | true => rfl
  | false =>
    rw [hflag] at hpos
    exact absurd hpos (Nat.lt_irrefl 0)

/-- Page `q.page` gets frame `f`, in place of the page `replaced` if there is one. -/
theorem IdleInv.inserted (h : IdleInv me s) (hinv : Inv me n s) (hN : N < GPLM.EXCLUSIVE_LOCKED)
    {q : Put N} {t : Option PutStage} {replaced : Option PageId} (mem : q ∈ s.puts)
    (hin : q.stage.inserted = false) (puts : s'.puts = movePut s.puts q t)
    (hready : ∀ p, p ≠ q.page → s'.ready p = s.ready p)
    (hnode : ∀ p, (s'.node me p).lk.lock = (s.node me p).lk.lock ∧
      (s'.node me p).unlocks = (s.node me p).unlocks ∧
      (p ≠ q.page → (s'.node me p).fetches = (s.node me p).fetches))
    (hins : s.pool.Inserted q.page f replaced s'.pool)
    (hold : ∀ p, s.pool.pageTable p = some f ↔ replaced = some p)
    (hmarks : ∀ g, marks g q = false ∧ ∀ st, t = some st → marks g { q with stage := st } = false)
    (htakes : ∀ p g, takes p g q = true → replaced = some p) : IdleInv me s' := by
  have hunmapped := hinv.unmapped hN mem hin
  have hgranting := absent_of_supply (hinv.page hN q.page) (hinv.supply_pos mem hin)
  have hgot : ∀ {p}, p ≠ q.page → s'.Got p → s.Got p := fun hp hgot =>
    hgot.congr (hready _ hp) fun x hx hreads hxin => by
      rw [puts] at hx
      rcases mem_movePut hx with hx | ⟨st, rfl, rfl⟩
      · exact ⟨x, hx, hreads, hxin⟩
      · simp only [Put.reads, decide_eq_true_eq] at hreads
        exact absurd hreads.1.symm hp
  refine ⟨fun p g hg hl => ?_, fun g hg => ?_, fun g => ?_⟩
  · rw [hins.pageTable] at hg
    rw [(hnode p).1] at hl
    split at hg
    · -- the page is being fetched
      rename_i hp
      subst hp
      cases ((hinv.page hN q.page).lock.node me).phase with
      | idle hi => exact absurd (hgranting.2.symm.trans hi.granting) (by decide)
      | fetching ha =>
        have hmem : _ ∈ ((s.protocol q.page).nodes me).fetches := ha.fetches ▸ List.mem_singleton.2 rfl
        exact absurd hl (lock_of_fetch (hinv.page hN q.page) hmem)
    · split at hg
      · cases hg
      · rename_i hp hreplaced
        have hne : g ≠ f := by
          rintro rfl
          exact hreplaced ((hold p).1 hg)
        rcases h.idle p g hg hl with ⟨hmem, hzero⟩ | ⟨u, hu, hrel⟩ | ⟨x, hx, hxtakes⟩
        · exact .inl ⟨(hins.mem g).2 ⟨hmem, hne⟩, (hins.pin g).trans hzero⟩
        · exact .inr (.inl ⟨u, (hnode p).2.1 ▸ hu, hrel⟩)
        · have hxq : x ≠ q := by
            rintro rfl
            exact hreplaced (htakes p g hxtakes)
          refine .inr (.inr ⟨x, ?_, hxtakes⟩)
          rw [puts]
          exact List.mem_append_right _ ((List.mem_erase_of_ne hxq).2 hx)
  · obtain ⟨hmem, hne⟩ := (hins.mem g).1 hg
    obtain ⟨p, hp, hzero, huse⟩ := h.listed g hmem
    have hpq : p ≠ q.page := by
      rintro rfl
      rw [hunmapped] at hp
      cases hp
    have hreplaced : replaced ≠ some p := by
      intro heq
      exact hne (Option.some.inj (hp.symm.trans ((hold p).2 heq)))
    refine ⟨p, by rw [hins.pageTable, if_neg hpq, if_neg hreplaced, hp],
      (hins.pin g).trans hzero, ?_⟩
    rw [(hnode p).1, (hnode p).2.2 hpq]
    exact huse.imp_right fun huse => ⟨huse.1, fun hg => huse.2 (hgot hpq hg)⟩
  · have hcount := countP_movePut (t := t) mem (marks g)
    obtain ⟨hmark, hnew⟩ := hmarks g
    rw [puts, hins.flags, ← h.flags g]
    cases t with
    | none => simpa [hmark] using hcount
    | some st => simpa [hmark, hnew st rfl] using hcount

theorem IdleInv.step (h : IdleInv me s) (hgot : GotInv me s) (hinv : Inv me n s)
    (hN : N < GPLM.EXCLUSIVE_LOCKED) {a : Action N} (ok : s.KeepsEvictable me a)
    (hs : Step me s a s') : IdleInv me s' := by
  -- a step of a thread that touches neither LRU lists nor protocols
  have hquiet : ∀ {q : Put N} {stage : PutStage} {pool : Pool}, q ∈ s.puts →
      pool.pageTable = s.pool.pageTable → pool.pages = s.pool.pages →
      pool.replacer = s.pool.replacer → stage.inserted = q.stage.inserted →
      (∀ f, marks f { q with stage := stage } = marks f q) →
      (∀ p f, s.pool.pageTable p = some f → takes p f q = true →
        takes p f { q with stage := stage } = true) →
      IdleInv me ({ s with pool := pool }.setPut q stage) := by
    intro q stage pool mem htable hpages hreplacer hin hmarks htakes
    refine h.move mem rfl rfl (fun _ => ⟨rfl, rfl, rfl⟩) htable hin (fun f => ?_)
      (fun p f _ hidle => .inl ?_) htakes fun f hf => ?_
    · rw [hmarks]
      show _ = _ + (pool.replacer.isEvicting f).toNat
      rw [hreplacer]
    · show f ∈ pool.replacer ∧ (pool.pages f).pinCount = 0
      rwa [hreplacer, hpages]
    · have hf' : f ∈ pool.replacer := hf
      rw [hreplacer] at hf'
      exact ⟨hf', by show (pool.pages f).pinCount = _; rw [hpages]⟩
  -- a step of a thread that is also a step of the victim's protocol
  have hevict : ∀ {q : Put N} {stage : PutStage} {v : PageId} {st : State N Unit}
      {act : LazyRelease.Action N Unit}, q ∈ s.puts → (s.protocol v).step act = .next st →
      act.evictsAt me = true → stage.inserted = q.stage.inserted →
      (∀ f, marks f { q with stage := stage } = marks f q) →
      (∀ p f, s.pool.pageTable p = some f → takes p f q = true →
        takes p f { q with stage := stage } = true) →
      IdleInv me ((s.setProtocol v st).setPut q stage) := by
    intro q stage v st act mem taken hact hin hmarks htakes
    exact h.move mem rfl rfl (evict_node me taken hact) rfl hin (fun f => by rw [hmarks]; rfl)
      (fun p f _ hidle => .inl hidle) htakes fun f hf => ⟨hf, rfl⟩
  cases hs with
  | protocol left taken call => exact h.protocolStep hgot hinv hN ok.2 left taken call
  | @fetchPage p f pool mem stage unready noPut call =>
    have hlock := lock_of_fetch (hinv.page hN p) mem
    obtain ⟨g, hg⟩ := hinv.mapped_of_buffer
      (((hinv.page hN p).coherent.copy me).fetched f mem (by rw [hasPage_of_stage stage]; rfl))
    obtain ⟨pool', hcall, -, hpin⟩ := hinv.pool.fetchPage hg
    obtain rfl : pool' = pool := next.inj (hcall.symm.trans call)
    exact h.pinned hinv rfl (fun _ _ => rfl) (fun v hv => update_of_ne hv ..) hg hpin hlock
  | @beginPut p src hand =>
    refine ⟨fun v f hf hl => ?_, fun f hf => ?_, fun f => ?_⟩
    · rcases h.idle v f hf hl with hidle | hdropping | ⟨q, hq, htakes⟩
      · exact .inl hidle
      · exact .inr (.inl hdropping)
      · exact .inr (.inr ⟨q, List.mem_cons_of_mem _ hq, htakes⟩)
    · obtain ⟨v, hv, hzero, huse⟩ := h.listed f hf
      refine ⟨v, hv, hzero, huse.imp_right fun huse => ⟨huse.1, fun hg => huse.2 ?_⟩⟩
      refine hg.congr rfl fun q hq hreads hin => ?_
      rcases List.mem_cons.1 hq with rfl | hq
      · cases hin
      · exact ⟨q, hq, hreads, hin⟩
    · exact (List.countP_cons_of_neg (by simp [marks])).trans (h.flags f)
  | @checkFree q pool frame mem stage call =>
    obtain ⟨pool', frame', hcall, -, htable, hpages, hreplacer⟩ :=
      hinv.pool.checkIfDirectlyPutInBuffer (hinv.unmapped hN mem (by rw [stage]; rfl))
    obtain ⟨rfl, rfl⟩ := Prod.mk.inj (next.inj (hcall.symm.trans call))
    refine hquiet mem htable hpages hreplacer ?_ (fun f => ?_) fun p f _ htakes => ?_
    · rw [stage]
      cases frame' <;> rfl
    · cases frame' <;> simp [marks, stage]
    · simp [takes, stage] at htakes
  | @insertFree q f pool st mem stage call taken =>
    have hin : q.stage.inserted = false := by rw [stage]; rfl
    obtain ⟨-, -, hlk, hunlocks, -⟩ := action_pushes taken
    obtain ⟨pool', hcall, hins, -⟩ := Pool.insertOrReplace_next (f := f) (r := none)
      hinv.pool.listed nofun (hinv.unmapped hN mem hin)
    obtain rfl : pool' = pool := next.inj (hcall.symm.trans call)
    refine h.inserted hinv hN (t := none) mem hin rfl (fun p hp => ?_) (fun p => ?_) hins
      (fun p => ?_) (fun g => ⟨by simp [marks, stage], nofun⟩) (by simp [takes, stage])
    · show (if q.src.isPush then s.ready else update s.ready q.page true) p = _
      split
      · rfl
      · exact update_of_ne hp ..
    · rw [node_setProtocol (s := s) (p := p) rfl]
      split
      · rename_i hp
        subst hp
        exact ⟨congrArg _ hlk, hunlocks, fun hne => absurd rfl hne⟩
      · exact ⟨rfl, rfl, fun _ => rfl⟩
    · -- the frame is the thread's
      simp only [reduceCtorEq, iff_false]
      intro hp
      have honce := hinv.pool.owned.once f
      have hpos : 0 < s.reserved f := List.countP_pos_iff.2 ⟨q, mem, by simp [stage]⟩
      rw [(hinv.pool.owned.mapped p f).1 hp] at honce
      simp only [Option.isSome_some, Bool.toNat_true] at honce
      split at honce <;> omega
  | startProbe mem stage | probeNext mem stage | readVictim mem stage | readNone mem stage
  | lost mem stage =>
    exact hquiet mem rfl rfl rfl (by rw [stage]; rfl) (by simp [marks, stage])
      (by simp [takes, stage])
  | @probeFound q start i f mem stage found =>
    obtain ⟨-, hfree⟩ := LRUReplacer.probe_some hinv.pool.listed found
    refine h.move mem rfl rfl (fun _ => ⟨rfl, rfl, rfl⟩) rfl (by rw [stage]; rfl) (fun g => ?_)
      (fun p g _ hidle => .inl hidle) (by simp [takes, stage]) fun g hg => ⟨hg, rfl⟩
    show _ = _ + ((s.pool.replacer.choose f).isEvicting g).toNat
    by_cases hg : g = f
    · subst hg
      simp [marks, stage, hfree]
    · simp [marks, stage, hg, Ne.symm hg]
  | @won q f victim st mem stage taken | @agreed q f victim lsn st mem stage taken agree
  | @finishEvict q victim st mem stage taken | @retry q victim st mem stage taken =>
    exact hevict mem taken (by simp [Action.evictsAt]) (by rw [stage]; rfl) (by simp [marks, stage])
      (by simp [takes, stage])
  | @endGiveUp q f mem stage =>
    have hflag := h.flag_set mem (f := f) (by simp [marks, stage])
    refine h.move mem rfl rfl (fun _ => ⟨rfl, rfl, rfl⟩) rfl (by rw [stage]; rfl) (fun g => ?_)
      (fun p g _ hidle => .inl hidle) (by simp [takes, stage]) fun g hg => ⟨hg, rfl⟩
    show _ = _ + ((s.pool.replacer.endVictim false f).isEvicting g).toNat
    by_cases hg : g = f
    · subst hg
      simp [marks, stage, hflag]
    · simp [marks, stage, hg, Ne.symm hg]
  | @endWon q f victim mem stage =>
    have hflag := h.flag_set mem (f := f) (by simp [marks, stage])
    refine h.move mem rfl rfl (fun _ => ⟨rfl, rfl, rfl⟩) rfl (by rw [stage]; rfl) (fun g => ?_)
      (fun p g _ hidle => ?_) (by simp [takes, stage]) fun g hg => ?_
    · show _ = _ + ((s.pool.replacer.endVictim true f).isEvicting g).toNat
      by_cases hg : g = f
      · subst hg
        simp [marks, stage, hflag]
      · simp [marks, stage, hg, Ne.symm hg]
    · by_cases hg : g = f
      · exact .inr (by simp [takes, hg])
      · exact .inl ⟨hinv.pool.listed.mem_endVictim.2 ⟨hidle.1, fun hc => hg hc.2⟩, hidle.2⟩
    · exact ⟨(hinv.pool.listed.mem_endVictim.1 hg).1, rfl⟩
  | @readLost q f victim st mem stage page =>
    have hkeeps := ok.1
    simp [KeepsVictim, FindsVictim, stage, page] at hkeeps
  | @readAgain q f victim other mem stage page =>
    have hkeeps := ok.1
    simp only [KeepsVictim, FindsVictim, stage] at hkeeps
    refine hquiet mem rfl rfl rfl (by rw [stage]; rfl) (by simp [marks, stage]) fun p g hp htakes => ?_
    -- the page in the frame is the victim
    have hg : f = g := by simpa [takes, stage] using htakes
    subst hg
    have hpage := (hinv.pool.owned.mapped p f).1 hp
    rw [hkeeps] at hpage
    simpa [takes] using hpage
  | @checkNone q f victim st mem stage mode taken =>
    refine hevict mem taken (by simp [Action.evictsAt]) (by rw [stage]; rfl) (by simp [marks, stage])
      fun p g hp htakes => ?_
    obtain ⟨rfl, rfl⟩ : f = g ∧ victim = p := by simpa [takes, stage] using htakes
    have hb : (s.node me victim).buffer = none := by
      cases LazyRelease.step_cases taken with
      | evictNone hmem free hmode => exact absent_of_evictNone (hinv.page hN _) hmem free hmode
      | evictAsk hmem free hmode => exact absurd mode hmode
    rw [hinv.unmapped_of_buffer hb] at hp
    cases hp
  | @checkAsk q f victim pool pool' st page mem stage mode pin again taken buffer =>
    obtain ⟨g, hg⟩ := hinv.mapped_of_buffer (p := victim) (by rw [buffer]; simp)
    obtain rfl : g = f := hinv.victim q mem f victim (by rw [stage]; rfl) g hg
    obtain ⟨p₁, hcall₁, hinv₁, hpin₁⟩ := hinv.pool.fetchPage hg
    obtain rfl := next.inj (hcall₁.symm.trans pin)
    obtain ⟨p₂, hcall₂, -, hpin₂⟩ := hinv₁.fetchPage (p := victim) (f := g)
      (by rw [hpin₁.same.pageTable, hg])
    obtain rfl := next.inj (hcall₂.symm.trans again)
    have hother : ∀ {x}, x ≠ g → (p₂.pages x).pinCount = (s.pool.pages x).pinCount := by
      intro x hx
      rw [hpin₂.pin, hpin₁.pin, if_neg hx]
      rfl
    refine h.move mem rfl rfl (evict_node me taken (by simp [Action.evictsAt]))
      (hpin₂.same.pageTable.trans hpin₁.same.pageTable) (by rw [stage]; rfl) (fun x => ?_)
      (fun p x hp hidle => ?_) (by simp [takes, stage]) fun x hx => ?_
    · show _ = _ + (p₂.replacer.isEvicting x).toNat
      rw [hpin₂.flags, hpin₁.flags]
      simp [marks, stage]
    · by_cases hx : x = g
      · subst hx
        refine .inr ?_
        simpa [takes] using hinv.pool.owned.page_unique hg hp
      · refine .inl ⟨(hpin₂.mem x).2 ⟨(hpin₁.mem x).2 ⟨hidle.1, fun hc => hx hc.1⟩,
          fun hc => hx hc.1⟩, (hother hx).trans hidle.2⟩
    · obtain ⟨hmem, hnot⟩ := (hpin₁.mem x).1 ((hpin₂.mem x).1 hx).1
      refine ⟨hmem, hother ?_⟩
      rintro rfl
      obtain ⟨v, -, hzero, -⟩ := h.listed x hmem
      exact hnot ⟨rfl, hzero⟩
  | @refused q f victim lsn st mem stage taken refuse =>
    have hagrees := ok.2
    simp only [Agrees, stage, taken] at hagrees
    refine hevict mem taken (by simp [Action.evictsAt]) (by rw [stage]; rfl) (by simp [marks, stage])
      fun p g hp htakes => ?_
    obtain ⟨rfl, rfl⟩ : f = g ∧ victim = p := by simpa [takes, stage] using htakes
    rcases hagrees with hnone | hagree
    · rw [hnone] at hp
      cases hp
    · exact absurd hagree refuse
  | @replace q f victim pool st st' mem stage call drop taken =>
    have hin : q.stage.inserted = false := by rw [stage]; rfl
    obtain ⟨-, -, hlk, hunlocks, -⟩ := action_pushes taken
    have hagreed : .agreed ∈ (s.node me victim).evicts := hinv.evict_mem mem (by rw [stage]; rfl)
    obtain ⟨g, hg⟩ := hinv.mapped_of_buffer (((hinv.page hN victim).presence me).agreed hagreed)
    obtain rfl : g = f := hinv.victim q mem f victim (by rw [stage]; rfl) g hg
    obtain ⟨pool', hcall, hins, -⟩ := Pool.insertOrReplace_next (f := g) (r := some victim)
      hinv.pool.listed (by rintro _ ⟨⟩; simp [hg]) (hinv.unmapped hN mem hin)
    obtain rfl : pool' = pool := next.inj (hcall.symm.trans call)
    refine h.inserted hinv hN (t := some (.replaced victim)) mem hin rfl (fun p hp => rfl)
      (fun p => ?_) hins (fun p => ?_) (fun x => ⟨by simp [marks, stage], ?_⟩)
      (by simp [takes, stage])
    · obtain ⟨hfetches, hun, hlock⟩ := evict_node me drop (by simp [Action.evictsAt]) p
      rw [node_setProtocol (s := s.setProtocol victim st) (p := p) rfl]
      split
      · rename_i hp
        subst hp
        exact ⟨(congrArg _ hlk).trans hlock, hunlocks.trans hun, fun hne => absurd rfl hne⟩
      · exact ⟨hlock, hun, fun _ => hfetches⟩
    · constructor
      · intro hp
        exact congrArg some (hinv.pool.owned.page_unique hg hp)
      · rintro ⟨⟩
        exact hg
    · rintro _ ⟨⟩
      rfl
  | @endEvict q victim st mem stage taken =>
    have hnode := evict_node me taken (by simp [Action.evictsAt])
    have hgot' : ∀ {p}, ((s.setProtocol victim st).endPut q).Got p → s.Got p := by
      rintro p (hready | ⟨x, hx, hreads, hin⟩)
      · have hready' : (if q.src.isPush then s.ready else update s.ready q.page true) p =
            true := hready
        split at hready'
        · exact .inl hready'
        · rename_i hpush
          by_cases hp : p = q.page
          · exact .inr ⟨q, mem, by simpa [Put.reads, hp] using hpush, by rw [stage]; rfl⟩
          · rw [update_of_ne hp] at hready'
            exact .inl hready'
      · exact .inr ⟨x, List.mem_of_mem_erase hx, hreads, hin⟩
    refine ⟨fun p f hf hl => ?_, fun f hf => ?_, fun f => ?_⟩
    · obtain ⟨-, hunlocks, hlock⟩ := hnode p
      have hl := hlock.symm.trans hl
      rcases h.idle p f hf hl with hidle | ⟨u, hu, hrel⟩ | ⟨x, hx, htakes⟩
      · exact .inl hidle
      · exact .inr (.inl ⟨u, hunlocks ▸ hu, hrel⟩)
      · have hxq : x ≠ q := by
          rintro rfl
          simp [takes, stage] at htakes
        exact .inr (.inr ⟨x, (List.mem_erase_of_ne hxq).2 hx, htakes⟩)
    · obtain ⟨p, hp, hzero, huse⟩ := h.listed f hf
      obtain ⟨hfetches, -, hlock⟩ := hnode p
      refine ⟨p, hp, hzero, ?_⟩
      show (node me (s.setProtocol victim st) p).lk.lock = 0 ∨
        (node me (s.setProtocol victim st) p).fetches ≠ [] ∧ _
      rw [hlock, hfetches]
      exact huse.imp_right fun huse => ⟨huse.1, fun hg => huse.2 (hgot' hg)⟩
    · have hcount := Counting.countP_erase_add (marks f) mem
      have hmark : marks f q = false := by simp [marks, stage]
      rw [hmark] at hcount
      exact hcount.trans (h.flags f)

/-- No thread of the node is in the middle of a fetch, a release, a push, a Pending handler or an
eviction of a page of the table. -/
def Quiescent (me : GPLM.NodeId N) (s : LazyNode N) : Prop :=
  s.puts = [] ∧ ∀ p, (s.node me p).fetches = [] ∧ (s.node me p).releases = [] ∧
    (s.node me p).handlers = [] ∧ (s.node me p).unlocks = [] ∧ (s.node me p).arrived = 0 ∧
    (s.node me p).evicts = []

/-- Frame `f` can be chosen as a victim. -/
def evictable (s : LazyNode N) (f : FrameId) : Bool :=
  f ∈ s.pool.replacer ∧ s.pool.replacer.isEvicting f = false

/-- The frame is in a free list. -/
def free (s : LazyNode N) (f : FrameId) : Bool := 0 < s.pool.freeCount f

/-- Frame `f` belongs to a page whose local lock is taken. -/
def locked (me : GPLM.NodeId N) (s : LazyNode N) (f : FrameId) : Bool :=
  match (s.pool.pages f).pageId with
  | none => false
  | some p => (s.node me p).lk.lock ≠ 0

theorem invs_of_run (hN : N < GPLM.EXCLUSIVE_LOCKED)
    (run : Run (LazyNode.step me) (KeepsEvictable me) (init n) s) :
    Inv me n s ∧ GotInv me s ∧ IdleInv me s := by
  refine run.invariant (P := fun s => Inv me n s ∧ GotInv me s ∧ IdleInv me s)
    ⟨inv_init n, gotInv_init n, idleInv_init n⟩ ?_
  rintro s a s' ⟨hinv, hgot, hidle⟩ ok taken
  have hs := step_cases taken
  exact ⟨hinv.step hN ok.1 hs, hgot.step hinv hN ok.1 hs, hidle.step hgot hinv hN ok hs⟩

theorem evictable_iff (hinv : Inv me n s) (hidle : IdleInv me s) (quiet : s.Quiescent me)
    (hf : f < n) : (s.evictable f).toNat + (s.free f).toNat + (s.locked me f).toNat = 1 := by
  obtain ⟨hputs, hnodes⟩ := quiet
  have hflag : s.pool.replacer.isEvicting f = false := by
    have := hidle.flags f
    rw [hputs] at this
    exact Bool.toNat_eq_zero.1 this.symm
  have hmem : ∀ {p}, s.pool.pageTable p = some f →
      (f ∈ s.pool.replacer ↔ (s.node me p).lk.lock = 0) := by
    intro p hp
    constructor
    · intro hmem
      obtain ⟨v, hv, -, huse⟩ := hidle.listed f hmem
      obtain rfl : v = p := hinv.pool.owned.page_unique hv hp
      rcases huse with h0 | ⟨hfetches, -⟩
      · exact h0
      · exact absurd (hnodes v).1 hfetches
    · intro h0
      rcases hidle.idle p f hp h0 with ⟨hmem, -⟩ | ⟨u, hu, -⟩ | ⟨q, hq, -⟩
      · exact hmem
      · rw [(hnodes p).2.2.2.1] at hu
        cases hu
      · rw [hputs] at hq
        cases hq
  have honce := hinv.pool.owned.once f
  have hreserved : s.reserved f = 0 := by rw [reserved, hputs]; rfl
  rw [if_pos hf, hreserved] at honce
  cases hpage : (s.pool.pages f).pageId with
  | none =>
    -- a free frame is in no LRU list
    have hnot : f ∉ s.pool.replacer := by
      intro hmem
      obtain ⟨p, hp, -⟩ := hidle.listed f hmem
      rw [(hinv.pool.owned.mapped p f).1 hp] at hpage
      cases hpage
    simp only [hpage, Option.isSome_none, Bool.toNat_false, Nat.add_zero] at honce
    simp [evictable, free, locked, hpage, hnot, honce]
  | some p =>
    have hp := (hinv.pool.owned.mapped p f).2 hpage
    simp only [hpage, Option.isSome_some, Bool.toNat_true, Nat.add_zero] at honce
    have hfree : s.pool.freeCount f = 0 := by omega
    by_cases h0 : (s.node me p).lk.lock = 0
    · simp [evictable, free, locked, hpage, hfree, hflag, (hmem hp).2 h0, h0]
    · have hnot : f ∉ s.pool.replacer := fun hm => h0 ((hmem hp).1 hm)
      simp [evictable, free, locked, hpage, hfree, hnot, h0]

/-- In every run in which no eviction loses its victim or is refused, and no page is pushed for
NotifyPushPage while nobody on the node uses it: in a quiescent state the frame of every page whose
local lock is free is in the LRU lists and not pinned, and the frames that can be chosen as victims
are all but the free ones and those of locked pages. -/
theorem idle_pages_evictable (hN : N < GPLM.EXCLUSIVE_LOCKED)
    (run : Run (LazyNode.step me) (KeepsEvictable me) (init n) s) (quiet : s.Quiescent me) :
    (∀ p f, s.pool.pageTable p = some f → (s.node me p).lk.lock = 0 →
      f ∈ s.pool.replacer ∧ (s.pool.pages f).pinCount = 0) ∧
    (List.range n).countP s.evictable =
      n - (List.range n).countP s.free - (List.range n).countP (s.locked me) := by
  obtain ⟨hinv, -, hidle⟩ := invs_of_run hN run
  refine ⟨fun p f hp h0 => ?_, ?_⟩
  · rcases hidle.idle p f hp h0 with hlisted | ⟨u, hu, -⟩ | ⟨q, hq, -⟩
    · exact hlisted
    · rw [(quiet.2 p).2.2.2.1] at hu
      cases hu
    · rw [quiet.1] at hq
      cases hq
  · have hsum : ∀ k, k ≤ n → (List.range k).countP s.evictable + (List.range k).countP s.free +
        (List.range k).countP (s.locked me) = k := by
      intro k hk
      induction k with
      | zero => rfl
      | succ k ih =>
        have hone := evictable_iff hinv hidle quiet hk
        have hrest := ih (by omega)
        simp only [List.range_succ, List.countP_append, List.countP_singleton]
        cases he : s.evictable k <;> cases hfr : s.free k <;> cases hlo : s.locked me k <;>
          simp only [he, hfr, hlo, Bool.toNat_true, Bool.toNat_false, Bool.false_eq_true, if_true,
            if_false] at hone ⊢ <;> omega
    have := hsum n le_rfl
    omega

/-- The page that the thread evicts. -/
def target : PutStage → Option PageId
  | .read _ v | .won _ v | .begun _ v | .chosen _ v | .asking _ v _ | .agreed _ v | .replaced v
  | .ending v _ => some v
  | .checking | .reserved _ | .choosing | .probing _ _ | .picked _ | .giveUp _ => none

/-- The action concerns only pages of `pages`. -/
def within (pages : List PageId) : Action N → Bool
  | .protocol p _ | .fetchPage p _ | .beginPut p _ => p ∈ pages
  | .checkFree q | .insertFree q | .startProbe q _ | .probe q | .readVictim q | .tryBeginEvict q
  | .endVictim q | .readAgain q | .checkEvict q | .askEvict q | .replace q | .finishEvict q
  | .endEvict q => q.page ∈ pages ∧ ∀ v ∈ target q.stage, v ∈ pages

variable {pages : List PageId}

theorem Step.untouched {a : Action N} (hs : Step me s a s') (hw : within pages a = true)
    (hp : p ∉ pages) : s'.protocol p = s.protocol p := by
  have hset : ∀ {v : PageId} {st : State N Unit}, v ∈ pages →
      update s.protocol v st p = s.protocol p := by
    intro v st hv
    have hpv : p ≠ v := fun heq => hp (heq ▸ hv)
    exact update_of_ne hpv ..
  cases hs with
  | protocol => exact hset (by simpa [within] using hw)
  | insertFree mem stage =>
    simp only [within, decide_eq_true_eq] at hw
    exact hset hw.1
  | won mem stage | readLost mem stage | checkNone mem stage | checkAsk mem stage
  | agreed mem stage | refused mem stage | finishEvict mem stage | endEvict mem stage
  | retry mem stage =>
    simp only [within, decide_eq_true_eq, stage] at hw
    exact hset (hw.2 _ rfl)
  | @replace q f victim pool st st' mem stage =>
    simp only [within, decide_eq_true_eq, stage] at hw
    have hpq : p ≠ q.page := fun heq => hp (heq ▸ hw.1)
    exact (update_of_ne hpq ..).trans (hset (hw.2 _ rfl))
  | _ => rfl

/-- No call is open at these pages. -/
def quietAt (me : GPLM.NodeId N) (pages : List PageId) (s : LazyNode N) : Bool :=
  s.puts.isEmpty && pages.all fun p =>
    (s.node me p).fetches.isEmpty && (s.node me p).releases.isEmpty &&
      (s.node me p).handlers.isEmpty && (s.node me p).unlocks.isEmpty &&
      (s.node me p).arrived == 0 && (s.node me p).evicts.isEmpty

theorem quiescent_of_within {allowed : LazyNode N → Action N → Prop}
    (run : Run (LazyNode.step me) (fun s a => allowed s a ∧ within pages a = true) (init n) s)
    (hquiet : quietAt me pages s = true) : s.Quiescent me := by
  simp only [quietAt, Bool.and_eq_true, List.all_eq_true, List.isEmpty_iff, beq_iff_eq,
    and_assoc] at hquiet
  obtain ⟨hputs, hnodes⟩ := hquiet
  refine ⟨hputs, fun p => ?_⟩
  by_cases hp : p ∈ pages
  · exact hnodes p hp
  · have hsame : s.protocol p = State.init { llsn := 0, data := () } :=
      run.invariant (P := fun s => s.protocol p = State.init { llsn := 0, data := () }) rfl
        fun h ok taken => ((step_cases taken).untouched ok.2 hp).trans h
    rw [node, hsame]
    exact ⟨rfl, rfl, rfl, rfl, rfl, rfl⟩

end LazyNode

/-- The reader of page `p` on node 0 that evicted `victim` gets its page and releases it. -/
def finishRead (p : PageId) (victim : PageId) : List (Action 2) :=
  [.finishEvict ⟨p, storageRead, .replaced victim⟩, .endEvict ⟨p, storageRead, .ending victim true⟩,
    .protocol p (.fetchDone 0 ⟨false, .pushing []⟩), .protocol p (.release 0 false),
    .protocol p (.releasePush 0 ⟨false, 0, none⟩),
    .protocol p (.releaseFinish 0 ⟨false, 0, some false⟩)]

/-- After an eviction the page that was read can be evicted in turn. -/
theorem LazyNode.idle_pages_evictable_after_eviction :
    ∃ s : LazyNode 2, s.pool.pageTable 16 = some 0 ∧ 0 ∈ s.pool.replacer ∧
      (s.pool.pages 0).pinCount = 0 ∧ (List.range 1).countP s.evictable = 1 := by
  obtain ⟨s, run, hs⟩ := Run.of_reaches (LazyNode.step 0)
    (fun s a => s.KeepsEvictable 0 a ∧ LazyNode.within [0, 16] a = true)
    (readOnce 0 0 ++ chooseVictim 16 0 ++ replaceVictim 16 0 0 ++ finishRead 16 0)
    (LazyNode.init 1)
    (fun s => decide (s.quietAt 0 [0, 16] = true ∧ s.pool.pageTable 16 = some 0 ∧
      (s.node 0 16).lk.lock = 0 ∧ s.evictable 0 = true))
    (by decide +kernel)
  obtain ⟨hat, h16, h0, hev⟩ := of_decide_eq_true hs
  have hquiet := LazyNode.quiescent_of_within run hat
  obtain ⟨hidle, -⟩ := LazyNode.idle_pages_evictable (by decide) (run.mono fun _ _ ok => ok.1) hquiet
  obtain ⟨hmem, hpin⟩ := hidle 16 0 h16 h0
  exact ⟨s, h16, hmem, hpin, by simpa using hev⟩

/-- A reader on node 1 asks for page 0, which is idle on node 0. -/
def pushIdleRun : List (Action 2) :=
  readOnce 0 0 ++ [.protocol 0 (.lock 1 false), .protocol 0 (.dirLock 1 ⟨false, .asking⟩),
    .protocol 0 (.notifyPush 1 ⟨false, .notifying 0⟩)]

/-- Node 1 asks for page 0, and before the Pending request arrives node 0 tries to evict the page. The
directory refuses, and page 32 gets the frame of page 48 instead. -/
def refusedEvictionRun : List (Action 2) :=
  readOnce 0 0 ++ readOnce 48 16 ++ [.protocol 0 (.lock 1 true),
    .protocol 0 (.dirLock 1 ⟨true, .asking⟩)] ++ chooseVictim 32 0 ++ (replaceVictim 32 0 0).take 5 ++
    [.endEvict ⟨32, storageRead, .ending 0 false⟩] ++ (chooseVictim 32 16).drop 4 ++
    replaceVictim 32 16 48 ++ finishRead 32 48

/-- An idle page may be in no LRU list, after a push for NotifyPushPage and after an eviction that the
directory has refused. -/
theorem LazyNode.idle_page_not_evictable :
    (∃ s : LazyNode 2, Run (LazyNode.step 0) LazyNode.KeepsVictim (LazyNode.init 1) s ∧
      s.Quiescent 0 ∧ s.pool.pageTable 0 = some 0 ∧ (s.node 0 0).lk.lock = 0 ∧
      0 ∉ s.pool.replacer ∧ (s.pool.pages 0).pinCount = 1) ∧
    ∃ s : LazyNode 2, Run (LazyNode.step 0) LazyNode.KeepsVictim (LazyNode.init 17) s ∧
      s.Quiescent 0 ∧ s.pool.pageTable 0 = some 0 ∧ (s.node 0 0).lk.lock = 0 ∧
      0 ∉ s.pool.replacer ∧ (s.pool.pages 0).pinCount = 2 := by
  constructor
  · obtain ⟨s, run, hs⟩ := Run.of_reaches (LazyNode.step 0)
      (fun s a => s.KeepsVictim a ∧ LazyNode.within [0] a = true) pushIdleRun (LazyNode.init 1)
      (fun s => decide (s.quietAt 0 [0] = true ∧ s.pool.pageTable 0 = some 0 ∧
        (s.node 0 0).lk.lock = 0 ∧ 0 ∉ s.pool.replacer ∧
        (s.pool.pages 0).pinCount = 1)) (by decide +kernel)
    obtain ⟨hquiet, hrest⟩ := of_decide_eq_true hs
    exact ⟨s, run.mono fun _ _ ok => ok.1, LazyNode.quiescent_of_within run hquiet, hrest⟩
  · obtain ⟨s, run, hs⟩ := Run.of_reaches (LazyNode.step 0)
      (fun s a => s.KeepsVictim a ∧ LazyNode.within [0, 32, 48] a = true) refusedEvictionRun
      (LazyNode.init 17)
      (fun s => decide (s.quietAt 0 [0, 32, 48] = true ∧ s.pool.pageTable 0 = some 0 ∧
        (s.node 0 0).lk.lock = 0 ∧ 0 ∉ s.pool.replacer ∧
        (s.pool.pages 0).pinCount = 2)) (by decide +kernel)
    obtain ⟨hquiet, hrest⟩ := of_decide_eq_true hs
    exact ⟨s, run.mono fun _ _ ok => ok.1, LazyNode.quiescent_of_within run hquiet, hrest⟩

end BufferPool
