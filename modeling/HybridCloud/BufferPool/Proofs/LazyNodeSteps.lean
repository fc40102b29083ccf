import HybridCloud.BufferPool.LazyNode
import HybridCloud.LazyRelease.Proofs.BufferPresence

/-!
# What a step of the node can do

`LazyNode.Step` lists what each action does when it completes, with the calls of the pool and the
steps of the protocols it is made of.
-/

namespace LazyRelease

open GPLM Outcome

variable {N : Nat} {α : Type} {st st' : State N α} {me n : NodeId N} {nd nd' : Node N α}

/-- The steps in which a thread of `me`'s pool puts a page into the pool or evicts it. -/
def Action.byPut (me : NodeId N) : Action N α → Bool
  | .readStorage n _ _ | .pushArrive n _ | .beginEvict n | .evictLost n | .evictCheck n
  | .dirEvict n _ | .evictReplace n | .evictDone n | .endEvict n => n = me
  | _ => false

/-- The steps in which `me` drops the page. -/
def Action.givesUp (me : NodeId N) : Action N α → Bool
  | .pendingFinish n h => n = me ∧ 0 < h.unlockRemote
  | .unlockReturn n u => n = me ∧ u.fromRelease = true
  | _ => false

/-- The fetch has to read storage. -/
def Fetch.reads (f : Fetch N) : Bool :=
  match f.stage with
  | .answered (.storageFetch _) => true
  | _ => false

section Keeps

variable {R : Node N α → Node N α → Prop}

theorem rel_setNode (refl : ∀ nd, R nd nd) (h : n = me → R (st.nodes n) nd) :
    R (st.nodes me) ((st.setNode n nd).nodes me) := by
  by_cases hn : n = me
  · subst hn
    simpa [State.setNode] using h rfl
  · simpa [State.setNode, Function.update, Ne.symm hn] using refl (st.nodes me)

theorem rel_sent (refl : ∀ nd, R nd nd)
    (push : ∀ nd page, R nd { nd with pushes := nd.pushes ++ [page] }) {dest : Option (NodeId N)}
    (h : n = me → R (st.nodes n) nd) :
    R (st.nodes me) (((st.sent n dest).setNode n nd).nodes me) := by
  by_cases hn : n = me
  · subst hn
    simpa [State.setNode] using h rfl
  · have hsame : ((st.sent n dest).setNode n nd).nodes me = (st.sent n dest).nodes me := by
      simp [State.setNode, Function.update, Ne.symm hn]
    rw [hsame]
    exact forall_sent (P := fun k nd => k = me → R (st.nodes me) nd)
      (fun k hk => hk ▸ refl _) (fun d page _ _ hd => hd ▸ push _ _) me rfl

theorem rel_afterDir (receive : ∀ nd nd' msgs, R nd nd' → R nd (Node.receive nd' me msgs))
    (refl : ∀ nd, R nd nd) {d : Directory N} {msgs : List (DirMsg N)}
    (h : n = me → R (st.nodes n) nd) : R (st.nodes me) ((st.afterDir d msgs n nd).nodes me) := by
  have hset := rel_setNode refl h
  exact receive _ _ msgs hset

variable [DecidableEq α]

/-- What the threads of the pool rely on. -/
structure Node.Keeps (nd nd' : Node N α) : Prop where
  evicts : nd'.evicts = nd.evicts
  pushes : ∀ page, nd.pushes.count page ≤ nd'.pushes.count page
  stored : ∀ f : Fetch N, f.reads = true → nd.fetches.count f ≤ nd'.fetches.count f

theorem Node.Keeps.refl (nd : Node N α) : nd.Keeps nd := ⟨rfl, fun _ => le_rfl, fun _ _ => le_rfl⟩

theorem keeps_push (nd : Node N α) (page : Page α) :
    nd.Keeps { nd with pushes := nd.pushes ++ [page] } :=
  ⟨rfl, fun _ => by simp, fun _ _ => le_rfl⟩

theorem keeps_receive (nd nd' : Node N α) (msgs : List (DirMsg N)) (h : nd.Keeps nd') :
    nd.Keeps (nd'.receive n msgs) := ⟨h.evicts, h.pushes, h.stored⟩

theorem keeps_fetches {f : Fetch N} (fs : List (Fetch N)) (hf : f.reads = false)
    (he : nd'.evicts = nd.evicts) (hp : ∀ page, nd.pushes.count page ≤ nd'.pushes.count page)
    (hfs : nd'.fetches = fs ++ nd.fetches.erase f) : nd.Keeps nd' := by
  refine ⟨he, hp, fun g hg => ?_⟩
  have hne : g ≠ f := by
    rintro rfl
    simp [hf] at hg
  rw [hfs, List.count_append, List.count_erase_of_ne hne]
  omega

theorem Step.keeps {a : Action N α} (hs : Step st a st') (hput : a.byPut me = false) :
    (st.nodes me).Keeps (st'.nodes me) := by
  have hset : ∀ {n : NodeId N} {nd : Node N α}, (n = me → (st.nodes n).Keeps nd) →
      (st.nodes me).Keeps ((st.setNode n nd).nodes me) := rel_setNode Node.Keeps.refl
  have hsent : ∀ {n : NodeId N} {dest : Option (NodeId N)} {nd : Node N α},
      (n = me → (st.nodes n).Keeps nd) →
      (st.nodes me).Keeps (((st.sent n dest).setNode n nd).nodes me) :=
    rel_sent Node.Keeps.refl keeps_push
  cases hs with
  | lockLocalS | lockLocalX | write | writeUnlogged | releaseS | releaseX | releaseKeep | releaseEnd
  | releaseUnlock | pending | pendingKeep | unlockReturn | pushNotify | lockSuccess =>
    exact hset fun _ => ⟨rfl, fun _ => le_rfl, fun _ _ => le_rfl⟩
  | lockAskS | lockAskX =>
    exact hset fun _ => ⟨rfl, fun _ => le_rfl, fun _ _ => by simp [List.count_cons]⟩
  | @dirLock n f d msgs reply mem stage call =>
    exact rel_afterDir keeps_receive Node.Keeps.refl fun _ =>
      keeps_fetches (f := f) [_] (by simp [Fetch.reads, stage]) rfl (fun _ => le_rfl) rfl
  | @notifyPush n m f page mem stage buf ne =>
    exact hset fun _ =>
      keeps_fetches (f := f) [_] (by simp [Fetch.reads, stage]) rfl (fun _ => by simp) rfl
  | @gotPush n m f mem stage | @gotLock n f mem stage | @takePushList n f mem stage =>
    exact hset fun _ =>
      keeps_fetches (f := f) [_] (by simp [Fetch.reads, stage]) rfl (fun _ => le_rfl) rfl
  | @pushNext n d f pushList page mem stage buf ne =>
    rw [pushed_eq_sent buf]
    exact hsent fun _ =>
      keeps_fetches (f := f) [_] (by simp [Fetch.reads, stage]) rfl (fun _ => le_rfl) rfl
  | @fetchDone n f mem stage =>
    exact hset fun _ =>
      keeps_fetches (f := f) [] (by simp [Fetch.reads, stage]) rfl (fun _ => le_rfl) rfl
  | releasePush | pendingGive =>
    exact hsent fun _ => ⟨rfl, fun _ => le_rfl, fun _ _ => le_rfl⟩
  | dirUnlock =>
    exact rel_afterDir keeps_receive Node.Keeps.refl fun _ =>
      ⟨rfl, fun _ => le_rfl, fun _ _ => le_rfl⟩
  | readStorage | pushArrive | beginEvict | evictLost | evictNone | evictAsk | evictReplace
  | evictDone | endEvict | dirEvict =>
    refine hset fun hn => ?_
    simp [Action.byPut, hn] at hput

/-- A page leaves the buffer only when given up. -/
theorem Step.buffer_isSome {a : Action N α} (hs : Step st a st') (hput : a.byPut me = false) :
    (st'.nodes me).buffer.isSome = ((st.nodes me).buffer.isSome && !a.givesUp me) := by
  have hset : ∀ {n : NodeId N} {nd : Node N α},
      (n = me → nd.buffer.isSome = (st.nodes n).buffer.isSome) →
      ((st.setNode n nd).nodes me).buffer.isSome = (st.nodes me).buffer.isSome :=
    rel_setNode (R := fun nd nd' => nd'.buffer.isSome = nd.buffer.isSome) fun _ => rfl
  have hsent : ∀ {n : NodeId N} {dest : Option (NodeId N)} {nd : Node N α},
      (n = me → nd.buffer.isSome = (st.nodes n).buffer.isSome) →
      (((st.sent n dest).setNode n nd).nodes me).buffer.isSome = (st.nodes me).buffer.isSome :=
    rel_sent (R := fun nd nd' => nd'.buffer.isSome = nd.buffer.isSome) (fun _ => rfl)
      fun _ _ => rfl
  have hdir : ∀ {n : NodeId N} {nd : Node N α} {d : Directory N} {msgs : List (DirMsg N)},
      (n = me → nd.buffer.isSome = (st.nodes n).buffer.isSome) →
      ((st.afterDir d msgs n nd).nodes me).buffer.isSome = (st.nodes me).buffer.isSome :=
    rel_afterDir (R := fun nd nd' => nd'.buffer.isSome = nd.buffer.isSome)
      (fun _ _ _ h => h) fun _ => rfl
  cases hs with
  | lockLocalS | lockLocalX | releaseS | releaseX | releaseKeep | releaseEnd | releaseUnlock
  | pending | pushNotify | lockSuccess | lockAskS | lockAskX | notifyPush | gotPush | gotLock
  | takePushList | fetchDone =>
    simp only [Action.givesUp, Bool.not_false, Bool.and_true]
    exact hset fun _ => rfl
  | @write n f llsn page writer buf | @writeUnlogged n f page writer buf =>
    simp only [Action.givesUp, Bool.not_false, Bool.and_true]
    exact hset fun _ => by simp [buf]
  | pushNext _ _ buf =>
    simp only [Action.givesUp, Bool.not_false, Bool.and_true]
    rw [pushed_eq_sent buf]
    exact hsent fun _ => rfl
  | releasePush =>
    simp only [Action.givesUp, Bool.not_false, Bool.and_true]
    exact hsent fun _ => rfl
  | dirLock | dirUnlock =>
    simp only [Action.givesUp, Bool.not_false, Bool.and_true]
    exact hdir fun _ => rfl
  | @pendingGive n h mem gives =>
    by_cases hn : n = me
    · subst hn
      simp [Action.givesUp, gives, State.setNode]
    · simp only [Action.givesUp, hn, false_and, decide_false, Bool.not_false, Bool.and_true]
      exact hsent fun heq => absurd heq hn
  | @pendingKeep n h mem keeps =>
    simp only [Action.givesUp, keeps, Nat.lt_irrefl, and_false, decide_false, Bool.not_false,
      Bool.and_true]
    exact hset fun _ => rfl
  | @unlockReturn n u mem served buf =>
    by_cases hn : n = me
    · subst hn
      cases hu : u.fromRelease <;> simp [Action.givesUp, hu, State.setNode]
    · simp only [Action.givesUp, hn, false_and, decide_false, Bool.not_false, Bool.and_true]
      exact hset fun heq => absurd heq hn
  | readStorage | pushArrive | beginEvict | evictLost | evictNone | evictAsk | evictReplace
  | evictDone | endEvict | dirEvict =>
    simp only [Action.givesUp, Bool.not_false, Bool.and_true]
    refine hset fun hn => ?_
    simp [Action.byPut, hn] at hput

end Keeps

end LazyRelease

namespace BufferPool

open Outcome LazyRelease

variable {N : Nat} {me : GPLM.NodeId N} {s s' : LazyNode N}

@[simp] theorem attempt_eq_next {σ : Type} {x : Outcome σ} {a : σ} :
    attempt x = .next a ↔ x = .next a := by
  cases x <;> simp [attempt]

@[simp] theorem attempt_ne_abort {σ : Type} {x : Outcome σ} : attempt x ≠ .abort := by
  cases x <;> simp [attempt]

namespace LazyNode

/-- What a step can do. -/
inductive Step (me : GPLM.NodeId N) (s : LazyNode N) : Action N → LazyNode N → Prop where
  | protocol {p : PageId} {a : LazyRelease.Action N Unit} {st : State N Unit} {pool : Pool}
      (left : s.leftToProtocol me p a = true) (taken : (s.protocol p).step a = .next st)
      (call : s.poolCall me p a = .next pool) :
      Step me s (.protocol p a)
        { s.setProtocol p st with pool := pool, ready := s.readyAfter me p a }
  | fetchPage {p : PageId} {f : Fetch N} {pool : Pool} (mem : f ∈ (s.node me p).fetches)
      (stage : f.stage = .pushing []) (unready : s.ready p = false)
      (noPut : ∀ q ∈ s.puts, q.page = p → q.src.isPush = true)
      (call : s.pool.fetchPage p = .next pool) :
      Step me s (.fetchPage p f) { s with pool := pool, ready := Function.update s.ready p true }
  | beginPut {p : PageId} {src : PutSource N} (hand : s.atHand me p src = true) :
      Step me s (.beginPut p src)
        { s with puts := { page := p, src := src, stage := .checking } :: s.puts }
  | checkFree {q : Put N} {pool : Pool} {frame : Option FrameId} (mem : q ∈ s.puts)
      (stage : q.stage = .checking)
      (call : s.pool.checkIfDirectlyPutInBuffer q.page = .next (pool, frame)) :
      Step me s (.checkFree q)
        ({ s with pool := pool }.setPut q (frame.elim .choosing .reserved))
  | insertFree {q : Put N} {f : FrameId} {pool : Pool} {st : State N Unit} (mem : q ∈ s.puts)
      (stage : q.stage = .reserved f) (call : s.pool.insertOrReplace q.page f none = .next pool)
      (taken : (s.protocol q.page).step (q.src.action me) = .next st) :
      Step me s (.insertFree q) ({ s.setProtocol q.page st with pool := pool }.endPut q)
  | startProbe {q : Put N} {start : Nat} (mem : q ∈ s.puts) (stage : q.stage = .choosing) :
      Step me s (.startProbe q start) (s.setPut q (.probing start 0))
  | probeFound {q : Put N} {start i : Nat} {f : FrameId} (mem : q ∈ s.puts)
      (stage : q.stage = .probing start i)
      (found : s.pool.replacer.probe ((start + i) % NUM_BUFFER_PARTITION) = some f) :
      Step me s (.probe q) ({ s with
        pool := { s.pool with replacer := s.pool.replacer.choose f } }.setPut q (.picked f))
  | probeNext {q : Put N} {start i : Nat} (mem : q ∈ s.puts) (stage : q.stage = .probing start i) :
      Step me s (.probe q) (s.setPut q (.probing start (i + 1)))
  | readNone {q : Put N} {f : FrameId} (mem : q ∈ s.puts) (stage : q.stage = .picked f) :
      Step me s (.readVictim q) (s.setPut q (.giveUp f))
  | readVictim {q : Put N} {f : FrameId} {victim : PageId} (mem : q ∈ s.puts)
      (stage : q.stage = .picked f) :
      Step me s (.readVictim q) (s.setPut q (.read f victim))
  | won {q : Put N} {f : FrameId} {victim : PageId} {st : State N Unit} (mem : q ∈ s.puts)
      (stage : q.stage = .read f victim)
      (taken : (s.protocol victim).step (.beginEvict me) = .next st) :
      Step me s (.tryBeginEvict q) ((s.setProtocol victim st).setPut q (.won f victim))
  | lost {q : Put N} {f : FrameId} {victim : PageId} (mem : q ∈ s.puts)
      (stage : q.stage = .read f victim) :
      Step me s (.tryBeginEvict q) (s.setPut q (.giveUp f))
  | endGiveUp {q : Put N} {f : FrameId} (mem : q ∈ s.puts) (stage : q.stage = .giveUp f) :
      Step me s (.endVictim q) ({ s with
        pool := { s.pool with replacer := s.pool.replacer.endVictim false f } }.setPut q .choosing)
  | endWon {q : Put N} {f : FrameId} {victim : PageId} (mem : q ∈ s.puts)
      (stage : q.stage = .won f victim) :
      Step me s (.endVictim q) ({ s with
        pool := { s.pool with replacer := s.pool.replacer.endVictim true f } }.setPut q
          (.begun f victim))
  | readLost {q : Put N} {f : FrameId} {victim : PageId} {st : State N Unit} (mem : q ∈ s.puts)
      (stage : q.stage = .begun f victim) (page : (s.pool.pages f).pageId = none) :
      Step me s (.readAgain q) ((s.setProtocol victim st).setPut q (.ending victim false))
  | readAgain {q : Put N} {f : FrameId} {victim other : PageId} (mem : q ∈ s.puts)
      (stage : q.stage = .begun f victim) (page : (s.pool.pages f).pageId = some other) :
      Step me s (.readAgain q) (s.setPut q (.chosen f victim))
  | checkNone {q : Put N} {f : FrameId} {victim : PageId} {st : State N Unit} (mem : q ∈ s.puts)
      (stage : q.stage = .chosen f victim) (mode : (s.node me victim).lk.remoteMode = .none)
      (taken : (s.protocol victim).step (.evictCheck me) = .next st) :
      Step me s (.checkEvict q) ((s.setProtocol victim st).setPut q (.ending victim false))
  | checkAsk {q : Put N} {f : FrameId} {victim : PageId} {pool pool' : Pool} {st : State N Unit}
      {page : LazyRelease.Page Unit} (mem : q ∈ s.puts) (stage : q.stage = .chosen f victim)
      (mode : (s.node me victim).lk.remoteMode ≠ .none)
      (pin : s.pool.fetchPage victim = .next pool) (again : pool.fetchPage victim = .next pool')
      (taken : (s.protocol victim).step (.evictCheck me) = .next st)
      (buffer : (s.node me victim).buffer = some page) :
      Step me s (.checkEvict q)
        ({ s.setProtocol victim st with pool := pool' }.setPut q (.asking f victim page.llsn))
  | agreed {q : Put N} {f : FrameId} {victim : PageId} {lsn : Nat} {st : State N Unit}
      (mem : q ∈ s.puts) (stage : q.stage = .asking f victim lsn)
      (taken : (s.protocol victim).step (.dirEvict me lsn) = .next st)
      (agree : .agreed ∈ (st.nodes me).evicts) :
      Step me s (.askEvict q) ((s.setProtocol victim st).setPut q (.agreed f victim))
  | refused {q : Put N} {f : FrameId} {victim : PageId} {lsn : Nat} {st : State N Unit}
      (mem : q ∈ s.puts) (stage : q.stage = .asking f victim lsn)
      (taken : (s.protocol victim).step (.dirEvict me lsn) = .next st)
      (refuse : .agreed ∉ (st.nodes me).evicts) :
      Step me s (.askEvict q) ((s.setProtocol victim st).setPut q (.ending victim false))
  | replace {q : Put N} {f : FrameId} {victim : PageId} {pool : Pool} {st st' : State N Unit}
      (mem : q ∈ s.puts) (stage : q.stage = .agreed f victim)
      (call : s.pool.insertOrReplace q.page f (some victim) = .next pool)
      (drop : (s.protocol victim).step (.evictReplace me) = .next st)
      (taken : ((s.setProtocol victim st).protocol q.page).step (q.src.action me) = .next st') :
      Step me s (.replace q)
        ({ (s.setProtocol victim st).setProtocol q.page st' with pool := pool }.setPut q
          (.replaced victim))
  | finishEvict {q : Put N} {victim : PageId} {st : State N Unit} (mem : q ∈ s.puts)
      (stage : q.stage = .replaced victim)
      (taken : (s.protocol victim).step (.evictDone me) = .next st) :
      Step me s (.finishEvict q) ((s.setProtocol victim st).setPut q (.ending victim true))
  | endEvict {q : Put N} {victim : PageId} {st : State N Unit} (mem : q ∈ s.puts)
      (stage : q.stage = .ending victim true)
      (taken : (s.protocol victim).step (.endEvict me) = .next st) :
      Step me s (.endEvict q) ((s.setProtocol victim st).endPut q)
  | retry {q : Put N} {victim : PageId} {st : State N Unit} (mem : q ∈ s.puts)
      (stage : q.stage = .ending victim false)
      (taken : (s.protocol victim).step (.endEvict me) = .next st) :
      Step me s (.endEvict q) ((s.setProtocol victim st).setPut q .choosing)

variable {p : PageId}

theorem protocolStep_cases {a : LazyRelease.Action N Unit} (h : s.protocolStep me p a = .next s') :
    Step me s (.protocol p a) s' := by
  simp only [protocolStep, bind_eq_next, await_eq_next] at h
  obtain ⟨_, hleft, h⟩ := h
  split at h
  · cases h
  · simp only [bind_eq_next, reduceCtorEq, and_false, exists_false] at h
  · rename_i st htaken
    obtain ⟨pool, hcall, h⟩ := bind_eq_next.1 h
    obtain rfl := next.inj h
    exact .protocol hleft htaken hcall

theorem fetchPage_cases {f : Fetch N} (h : s.fetchPage me p f = .next s') :
    Step me s (.fetchPage p f) s' := by
  simp only [fetchPage, bind_eq_next, await_eq_next] at h
  obtain ⟨_, ⟨hmem, hstage, hready, hnone⟩, pool, hcall, h⟩ := h
  obtain rfl := next.inj h
  exact .fetchPage hmem hstage hready hnone hcall

theorem beginPut_cases {src : PutSource N} (h : s.beginPut me p src = .next s') :
    Step me s (.beginPut p src) s' := by
  simp only [beginPut, bind_eq_next, await_eq_next] at h
  obtain ⟨_, hhand, h⟩ := h
  obtain rfl := next.inj h
  exact .beginPut hhand

variable {q : Put N}

theorem checkFree_cases (h : s.checkFree q = .next s') : Step me s (.checkFree q) s' := by
  simp only [checkFree, bind_eq_next, await_eq_next] at h
  obtain ⟨_, ⟨hmem, hstage⟩, ⟨pool, frame⟩, hcall, h⟩ := h
  have : Step me s (.checkFree q) _ := .checkFree hmem hstage hcall
  cases frame <;> obtain rfl := next.inj h <;> exact this

theorem insertFree_cases (h : s.insertFree me q = .next s') : Step me s (.insertFree q) s' := by
  simp only [insertFree, bind_eq_next, await_eq_next] at h
  obtain ⟨_, hmem, h⟩ := h
  split at h
  · rename_i f hstage
    simp only [insert, dropVictim, bind_eq_next, attempt_eq_next, pure_def, next.injEq] at h
    obtain ⟨_, ⟨pool, hcall, _, rfl, st, htaken, rfl⟩, rfl⟩ := h
    exact .insertFree hmem hstage hcall htaken
  · cases h

theorem startProbe_cases {start : Nat} (h : s.startProbe q start = .next s') :
    Step me s (.startProbe q start) s' := by
  simp only [startProbe, bind_eq_next, await_eq_next] at h
  obtain ⟨_, ⟨hmem, hstage⟩, h⟩ := h
  obtain rfl := next.inj h
  exact .startProbe hmem hstage

theorem probe_cases (h : s.probe q = .next s') : Step me s (.probe q) s' := by
  simp only [probe, bind_eq_next, await_eq_next] at h
  obtain ⟨_, hmem, h⟩ := h
  split at h
  · rename_i start i hstage
    split at h
    · rename_i f hfound
      obtain rfl := next.inj h
      exact .probeFound hmem hstage hfound
    · obtain ⟨_, -, h⟩ := bind_eq_next.1 h
      obtain rfl := next.inj h
      exact .probeNext hmem hstage
  · cases h

theorem readVictim_cases (h : s.readVictim q = .next s') : Step me s (.readVictim q) s' := by
  simp only [readVictim, bind_eq_next, await_eq_next] at h
  obtain ⟨_, hmem, h⟩ := h
  split at h
  · rename_i f hstage
    split at h <;> obtain rfl := next.inj h
    · exact .readNone hmem hstage
    · exact .readVictim hmem hstage
  · cases h

theorem tryBeginEvict_cases (h : s.tryBeginEvict me q = .next s') :
    Step me s (.tryBeginEvict q) s' := by
  simp only [tryBeginEvict, bind_eq_next, await_eq_next] at h
  obtain ⟨_, hmem, h⟩ := h
  split at h
  · rename_i f victim hstage
    obtain ⟨⟨lk, ok⟩, -, h⟩ := bind_eq_next.1 h
    cases ok with
    | true =>
      simp only [if_true, bind_eq_next, attempt_eq_next] at h
      obtain ⟨st, htaken, h⟩ := h
      obtain rfl := next.inj h
      exact .won hmem hstage htaken
    | false =>
      obtain rfl := next.inj h
      exact .lost hmem hstage
  · cases h

theorem endVictim_cases (h : s.endVictim q = .next s') : Step me s (.endVictim q) s' := by
  simp only [endVictim, bind_eq_next, await_eq_next] at h
  obtain ⟨_, hmem, h⟩ := h
  split at h
  · rename_i f hstage
    obtain rfl := next.inj h
    exact .endGiveUp hmem hstage
  · rename_i f victim hstage
    obtain rfl := next.inj h
    exact .endWon hmem hstage
  · cases h

theorem readAgain_cases (h : s.readAgain me q = .next s') : Step me s (.readAgain q) s' := by
  simp only [readAgain, bind_eq_next, await_eq_next] at h
  obtain ⟨_, hmem, h⟩ := h
  split at h
  · rename_i f victim hstage
    split at h <;> obtain rfl := next.inj h
    · exact .readLost hmem hstage ‹_›
    · exact .readAgain hmem hstage ‹_›
  · cases h

theorem checkEvict_cases (h : s.checkEvict me q = .next s') : Step me s (.checkEvict q) s' := by
  simp only [checkEvict, bind_eq_next, await_eq_next] at h
  obtain ⟨_, hmem, h⟩ := h
  split at h
  · rename_i f victim hstage
    obtain ⟨⟨lk, k⟩, htype, h⟩ := bind_eq_next.1 h
    obtain ⟨-, hmode, -⟩ := LRLocalPageLock.getUnlockType_next htype
    by_cases hk : k = 0
    · simp only [hk, if_true, bind_eq_next, attempt_eq_next] at h
      obtain ⟨st, htaken, h⟩ := h
      obtain rfl := next.inj h
      exact .checkNone hmem hstage (hmode.1 hk) htaken
    · simp only [hk, if_false, bind_eq_next, attempt_eq_next] at h
      obtain ⟨pool, hpin, pool', hagain, st, htaken, h⟩ := h
      split at h
      · cases h
      · rename_i page hbuf
        obtain rfl := next.inj h
        exact .checkAsk hmem hstage (hmode.not.1 hk) hpin hagain htaken hbuf
  · cases h

theorem askEvict_cases (h : s.askEvict me q = .next s') : Step me s (.askEvict q) s' := by
  simp only [askEvict, bind_eq_next, await_eq_next] at h
  obtain ⟨_, hmem, h⟩ := h
  split at h
  · rename_i f victim lsn hstage
    simp only [bind_eq_next, attempt_eq_next] at h
    obtain ⟨st, htaken, h⟩ := h
    split at h <;> obtain rfl := next.inj h
    · exact .agreed hmem hstage htaken ‹_›
    · exact .refused hmem hstage htaken ‹_›
  · cases h

theorem replace_cases (h : s.replace me q = .next s') : Step me s (.replace q) s' := by
  simp only [replace, bind_eq_next, await_eq_next] at h
  obtain ⟨_, hmem, h⟩ := h
  split at h
  · rename_i f victim hstage
    simp only [insert, dropVictim, bind_eq_next, attempt_eq_next, pure_def, next.injEq] at h
    obtain ⟨_, ⟨pool, hcall, _, ⟨st, hdrop, rfl⟩, st', htaken, rfl⟩, rfl⟩ := h
    exact .replace hmem hstage hcall hdrop htaken
  · cases h

theorem finishEvict_cases (h : s.finishEvict me q = .next s') : Step me s (.finishEvict q) s' := by
  simp only [finishEvict, bind_eq_next, await_eq_next] at h
  obtain ⟨_, hmem, h⟩ := h
  split at h
  · rename_i victim hstage
    simp only [bind_eq_next, attempt_eq_next] at h
    obtain ⟨st, htaken, h⟩ := h
    obtain rfl := next.inj h
    exact .finishEvict hmem hstage htaken
  · cases h

theorem endEvict_cases (h : s.endEvict me q = .next s') : Step me s (.endEvict q) s' := by
  simp only [endEvict, bind_eq_next, await_eq_next] at h
  obtain ⟨_, hmem, h⟩ := h
  split at h
  · rename_i victim done hstage
    simp only [bind_eq_next, attempt_eq_next] at h
    obtain ⟨st, htaken, h⟩ := h
    obtain rfl := next.inj h
    cases done with
    | true => exact .endEvict hmem hstage htaken
    | false => exact .retry hmem hstage htaken
  · cases h

/-- A completed step of the code is one of the listed ones. -/
theorem step_cases {a : Action N} (h : s.step me a = .next s') : Step me s a s' := by
  cases a with
  | protocol p a => exact protocolStep_cases h
  | fetchPage p f => exact fetchPage_cases h
  | beginPut p src => exact beginPut_cases h
  | checkFree q => exact checkFree_cases h
  | insertFree q => exact insertFree_cases h
  | startProbe q start => exact startProbe_cases h
  | probe q => exact probe_cases h
  | readVictim q => exact readVictim_cases h
  | tryBeginEvict q => exact tryBeginEvict_cases h
  | endVictim q => exact endVictim_cases h
  | readAgain q => exact readAgain_cases h
  | checkEvict q => exact checkEvict_cases h
  | askEvict q => exact askEvict_cases h
  | replace q => exact replace_cases h
  | finishEvict q => exact finishEvict_cases h
  | endEvict q => exact endEvict_cases h

end LazyNode

end BufferPool
