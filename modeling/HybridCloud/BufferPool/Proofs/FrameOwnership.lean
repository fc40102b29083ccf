import HybridCloud.BufferPool.Proofs.LazyNodeSteps
import HybridCloud.BufferPool.Proofs.PoolProofs

/-!
# Every frame has one owner

`replace_page` reads the page id of its victim's frame without a mutex. If the second read does not
find the victim again, `insert_or_replace` takes the frame away from a third page, and the victim's
own frame is lost.

In every run in which the second read finds the victim and `tryVictim` finds a frame, the page
tables, the free lists and the threads own disjoint frames, no assertion of the pool fails, and a
page is in the pool exactly when its protocol says so.
-/

namespace BufferPool

open Outcome LazyRelease Function Counting

variable {N : Nat} {me : GPLM.NodeId N} {n : Nat} {s s' : LazyNode N}

attribute [local simp] State.setNode bind_eq_abort

/-- The eviction of the victim's protocol that a thread stands for. -/
def PutStage.evict : PutStage → Option (PageId × Evict)
  | .won _ victim | .begun _ victim | .chosen _ victim => some (victim, .chosen)
  | .asking _ victim lsn => some (victim, .asking lsn)
  | .agreed _ victim => some (victim, .agreed)
  | .replaced victim => some (victim, .replaced)
  | .ending victim _ => some (victim, .ending)
  | .checking | .reserved _ | .choosing | .probing _ _ | .picked _ | .read _ _ | .giveUp _ => none

/-- The frame and the victim, once the second read has found it. -/
def PutStage.victim : PutStage → Option (FrameId × PageId)
  | .chosen f victim | .asking f victim _ | .agreed f victim => some (f, victim)
  | .checking | .reserved _ | .choosing | .probing _ _ | .picked _ | .read _ _ | .giveUp _
  | .won _ _ | .begun _ _ | .replaced _ | .ending _ _ => none

/-- What entitles a thread to bring a page. -/
def PutSource.key : PutSource N → Fetch N ⊕ LazyRelease.Page Unit
  | .storage f _ => .inl f
  | .push image => .inr image

/-- How many threads a page's protocol entitles to bring the page. -/
def supply (nd : Node N Unit) : Fetch N ⊕ LazyRelease.Page Unit → Nat
  | .inl f => if f.reads then nd.fetches.count f else 0
  | .inr image => nd.pushes.count image

/-- A thread is about to bring page `p`. -/
def Put.brings (p : PageId) (key : Fetch N ⊕ LazyRelease.Page Unit) (q : Put N) : Bool :=
  q.page = p ∧ q.src.key = key ∧ q.stage.inserted = false

namespace LazyNode

/-- How many threads have taken frame `f` from a free list. -/
def reserved (s : LazyNode N) (f : FrameId) : Nat := s.puts.countP fun q => q.stage = .reserved f

/-- `tryVictim` finds a frame, and the second read of its page id finds the victim. -/
def FindsVictim (s : LazyNode N) (q : Put N) : Prop :=
  match q.stage with
  | .probing start i => i + 1 < NUM_BUFFER_PARTITION ∨
      (s.pool.replacer.probe ((start + i) % NUM_BUFFER_PARTITION)).isSome = true
  | .begun f victim => (s.pool.pages f).pageId = some victim
  | _ => True

instance (s : LazyNode N) (q : Put N) : Decidable (s.FindsVictim q) :=
  match h : q.stage with
  | .probing start i => decidable_of_iff (i + 1 < NUM_BUFFER_PARTITION ∨
      (s.pool.replacer.probe ((start + i) % NUM_BUFFER_PARTITION)).isSome = true)
      (by simp only [FindsVictim, h])
  | .begun f victim => decidable_of_iff ((s.pool.pages f).pageId = some victim)
      (by simp only [FindsVictim, h])
  | .checking | .reserved _ | .choosing | .picked _ | .read _ _ | .giveUp _ | .won _ _
  | .chosen _ _ | .asking _ _ _ | .agreed _ _ | .replaced _ | .ending _ _ =>
    .isTrue (by simp only [FindsVictim, h])

/-- No eviction loses its victim. -/
def KeepsVictim (s : LazyNode N) : Action N → Prop
  | .protocol _ a => a.KeepsVictim
  | .probe q | .readAgain q => s.FindsVictim q
  | _ => True

instance (s : LazyNode N) : (a : Action N) → Decidable (s.KeepsVictim a)
  | .protocol _ a => inferInstanceAs (Decidable a.KeepsVictim)
  | .probe q | .readAgain q => inferInstanceAs (Decidable (s.FindsVictim q))
  | .fetchPage .. | .beginPut .. | .checkFree .. | .insertFree .. | .startProbe .. | .readVictim ..
  | .tryBeginEvict .. | .endVictim .. | .checkEvict .. | .askEvict .. | .replace ..
  | .finishEvict .. | .endEvict .. => .isTrue trivial

/-- What holds of the protocols, the pool and the puts. -/
structure Inv (me : GPLM.NodeId N) (n : Nat) (s : LazyNode N) : Prop where
  reached : ∀ p, Run State.step (fun _ act => act.KeepsVictim ∧ act.Logged)
    (State.init { llsn := 0, data := () }) (s.protocol p)
  pool : s.pool.Inv n s.reserved
  present : ∀ p, (s.pool.pageTable p).isSome = (s.node me p).buffer.isSome
  evicts : ∀ p e, s.puts.countP (fun q => q.stage.evict = some (p, e)) =
    (s.node me p).evicts.count e
  brings : ∀ p key, s.puts.countP (Put.brings p key) ≤ supply (s.node me p) key
  /-- The victim is still in the frame, unless it has left the pool. -/
  victim : ∀ q ∈ s.puts, ∀ f v, q.stage.victim = some (f, v) →
    ∀ g, s.pool.pageTable v = some g → g = f

theorem inv_init (n : Nat) : Inv me n (init n : LazyNode N) where
  reached _ := .start
  pool := Pool.inv_init n
  present _ := rfl
  evicts _ _ := rfl
  brings _ _ := Nat.zero_le _
  victim := nofun

theorem Inv.page (h : Inv me n s) (hN : N < GPLM.EXCLUSIVE_LOCKED) (p : PageId) :
    PageInv (s.protocol p) := pageInv_of_run hN (h.reached p)

variable {p : PageId}

theorem Inv.mapped_of_buffer (h : Inv me n s) (hb : (s.node me p).buffer ≠ none) :
    ∃ f, s.pool.pageTable p = some f := by
  refine Option.isSome_iff_exists.1 ?_
  rw [h.present p]
  exact Option.isSome_iff_ne_none.2 hb

theorem Inv.unmapped_of_buffer (h : Inv me n s) (hb : (s.node me p).buffer = none) :
    s.pool.pageTable p = none := by
  rw [← Option.not_isSome_iff_eq_none, h.present p, hb]
  exact Bool.false_ne_true

variable {st : State N Unit} {key : Fetch N ⊕ LazyRelease.Page Unit}

theorem absent_of_supply (h : PageInv st) (hpos : 0 < supply (st.nodes me) key) :
    (st.nodes me).buffer = none ∧ (st.nodes me).lk.isGranting = true := by
  cases key with
  | inl f =>
    simp only [supply] at hpos
    split at hpos
    · rename_i hreads
      have hmem := List.count_pos_iff.1 hpos
      unfold Fetch.reads at hreads
      split at hreads
      · rename_i lsn hstage
        exact ⟨(h.presence me).stored f hmem lsn hstage,
          ((h.lock.node me).fetch_of_mem hmem).1.granting⟩
      · cases hreads
    · omega
  | inr image =>
    have hmem := List.count_pos_iff.1 hpos
    refine ⟨(h.presence me).absent_of_push h.toTransferInv hmem, ?_⟩
    cases (h.lock.node me).phase with
    | fetching ha => exact ha.granting
    | idle hi =>
      have hin := pushes_add_arrived (h.push.inbound_of_idle hi)
      have := List.length_pos_of_mem hmem
      omega

variable {q : Put N}

theorem Inv.supply_pos (h : Inv me n s) (mem : q ∈ s.puts) (hin : q.stage.inserted = false) :
    0 < supply (s.node me q.page) q.src.key := by
  refine lt_of_lt_of_le (List.countP_pos_iff.2 ⟨q, mem, ?_⟩) (h.brings q.page q.src.key)
  simp [Put.brings, hin]

theorem Inv.unmapped (h : Inv me n s) (hN : N < GPLM.EXCLUSIVE_LOCKED) (mem : q ∈ s.puts)
    (hin : q.stage.inserted = false) : s.pool.pageTable q.page = none :=
  h.unmapped_of_buffer (absent_of_supply (h.page hN q.page) (h.supply_pos mem hin)).1

variable {v : PageId}

theorem Inv.evict_mem (h : Inv me n s) (mem : q ∈ s.puts) {e : Evict}
    (hev : q.stage.evict = some (v, e)) : e ∈ (s.node me v).evicts := by
  have hpos : 0 < s.puts.countP fun q => q.stage.evict = some (v, e) :=
    List.countP_pos_iff.2 ⟨q, mem, by simp [hev]⟩
  rw [h.evicts] at hpos
  exact List.count_pos_iff.1 hpos

theorem guard_of_ne_blocked {σ : Type} {P : Prop} [Decidable P] {f : Unit → Outcome σ}
    (h : (await P >>= f) ≠ .blocked) : P ∧ f () ≠ .blocked := by
  by_cases hP : P
  · rw [await_bind hP] at h
    exact ⟨hP, h⟩
  · simp [await, hP] at h

theorem buffer_of_release (h : PageInv st) {r : Release} (mem : r ∈ (st.nodes me).releases) :
    (st.nodes me).buffer ≠ none := by
  have hg := (h.lock.node me).phase.not_granting_of_release mem
  have hi := (h.lock.node me).idle hg
  exact (h.coherent.buffer_of_lock h.toTransferInv hg (hi.users.lock_ne_zero mem)).1

theorem buffer_of_quiet (h : PageInv st) (quiet : (st.nodes me).lk.Quiet)
    (hmode : (st.nodes me).lk.remoteMode ≠ .none) : (st.nodes me).buffer ≠ none :=
  (h.coherent.copy me).kept hmode
    (by simp [(h.lock.node me).evicts_nil quiet.not_evicting])

variable {a : LazyRelease.Action N Unit}

/-- A step of a page's protocol that calls the pool finds its page there. -/
theorem poolCall_spec (hpool : s.pool.Inv n s.reserved)
    (hpresent : ∀ p, (s.node me p).buffer ≠ none → ∃ f, s.pool.pageTable p = some f)
    (hpage : PageInv (s.protocol p)) (hstep : (s.protocol p).step a ≠ .blocked) :
    ∃ pool, s.poolCall me p a = .next pool ∧ pool.Inv n s.reserved ∧
      if a.givesUp me then pool.pageTable = update s.pool.pageTable p none
      else s.pool.SameOwners pool := by
  have hsame : s.pool.SameOwners s.pool := ⟨rfl, fun _ => rfl, rfl⟩
  have hpin : (s.node me p).buffer ≠ none → ∃ pool, s.pool.fetchPage p = .next pool ∧
      pool.Inv n s.reserved ∧ s.pool.SameOwners pool := by
    intro hb
    obtain ⟨f, hf⟩ := hpresent p hb
    obtain ⟨pool, hcall, hinv, hpinned⟩ := hpool.fetchPage hf
    exact ⟨pool, hcall, hinv, hpinned.same⟩
  cases a with
  | lock m x =>
    simp only [poolCall, Action.givesUp, Bool.false_eq_true, if_false]
    split
    · rename_i lk hlk
      split
      · rename_i hm
        subst hm
        refine hpin ?_
        cases x with
        | false =>
          obtain ⟨hquiet, -, hmode, -⟩ := LRLocalPageLock.lockShared_next hlk
          exact buffer_of_quiet hpage hquiet (by simpa using hmode)
        | true =>
          obtain ⟨hquiet, -, hmode, -⟩ := LRLocalPageLock.lockExclusive_next hlk
          have hx : ((s.protocol p).nodes m).lk.remoteMode = .exclusive := by simpa using hmode
          exact buffer_of_quiet hpage hquiet (by simp [hx])
      · exact ⟨_, rfl, hpool, hsame⟩
    · exact ⟨_, rfl, hpool, hsame⟩
  | notifyPush m f =>
    simp only [poolCall, Action.givesUp, Bool.false_eq_true, if_false]
    split
    · rename_i k hstage
      split
      · rename_i hk
        subst hk
        refine hpin ?_
        obtain ⟨-, hstep⟩ := guard_of_ne_blocked hstep
        rw [hstage] at hstep
        obtain ⟨hb, -⟩ := guard_of_ne_blocked hstep
        exact Option.isSome_iff_ne_none.1 hb
      · exact ⟨_, rfl, hpool, hsame⟩
    · exact ⟨_, rfl, hpool, hsame⟩
  | pushNext m f =>
    simp only [poolCall, Action.givesUp, Bool.false_eq_true, if_false]
    split
    · rename_i hm
      subst hm
      refine hpin ?_
      obtain ⟨hmem, hstep⟩ := guard_of_ne_blocked hstep
      split at hstep
      · rename_i pushList hstage
        exact (hpage.coherent.copy m).fetched f hmem (by rw [hasPage_of_stage hstage]; rfl)
      · exact absurd rfl hstep
    · exact ⟨_, rfl, hpool, hsame⟩
  | releasePush m r =>
    simp only [poolCall, Action.givesUp, Bool.false_eq_true, if_false]
    split
    · rename_i hm
      obtain ⟨rfl, -⟩ := hm
      obtain ⟨⟨hmem, -⟩, -⟩ := guard_of_ne_blocked hstep
      exact hpin (buffer_of_release hpage hmem)
    · exact ⟨_, rfl, hpool, hsame⟩
  | releaseFinish m r =>
    simp only [poolCall, Action.givesUp, Bool.false_eq_true, if_false]
    split
    · rename_i hm
      obtain ⟨rfl, -⟩ := hm
      obtain ⟨hmem, -⟩ := guard_of_ne_blocked hstep
      obtain ⟨f, hf⟩ := hpresent p (buffer_of_release hpage hmem)
      obtain ⟨pool, hcall, hinv, hunpinned⟩ := hpool.unpinPage hf
      exact ⟨pool, hcall, hinv, hunpinned.same⟩
    · exact ⟨_, rfl, hpool, hsame⟩
  | pendingFinish m h =>
    simp only [poolCall, Action.givesUp, decide_eq_true_eq]
    split
    · rename_i hm
      obtain ⟨rfl, hgives⟩ := hm
      obtain ⟨hmem, -⟩ := guard_of_ne_blocked hstep
      obtain ⟨f, hf⟩ := hpresent p ((hpage.presence m).giving h hmem hgives)
      split
      · obtain ⟨pool, hcall, hinv, hreleased⟩ := hpool.releasePage hf
        exact ⟨pool, hcall, hinv, hreleased.pageTable⟩
      · -- the page is pinned for the push to `dest` and dropped then
        obtain ⟨pool, hcall, hinv, hpinned⟩ := hpool.fetchPage hf
        obtain ⟨pool', hcall', hinv', hreleased⟩ := hinv.releasePage (p := p) (f := f)
          (by rw [hpinned.same.pageTable, hf])
        exact ⟨pool', by rw [hcall, next_bind, hcall'], hinv',
          (hpinned.released hreleased).pageTable⟩
    · exact ⟨_, rfl, hpool, hsame⟩
  | unlockReturn m u =>
    simp only [poolCall, Action.givesUp, decide_eq_true_eq]
    split
    · rename_i hm
      obtain ⟨rfl, hrel⟩ := hm
      obtain ⟨⟨hmem, -⟩, -⟩ := guard_of_ne_blocked hstep
      obtain ⟨f, hf⟩ := hpresent p ((hpage.presence m).release u hmem hrel).1
      obtain ⟨pool, hcall, hinv, hreleased⟩ := hpool.releasePage hf
      exact ⟨pool, hcall, hinv, hreleased.pageTable⟩
    · exact ⟨_, rfl, hpool, hsame⟩
  | _ => exact ⟨_, rfl, hpool, hsame⟩

variable {act : LazyRelease.Action N Unit}

section Thread

variable {q : Put N} {t : Option PutStage}

/-- The threads after `q` has gone on to another stage, or has returned. -/
def movePut (puts : List (Put N)) (q : Put N) (stage : Option PutStage) : List (Put N) :=
  (stage.map fun st => { q with stage := st }).toList ++ puts.erase q

theorem countP_movePut (mem : q ∈ s.puts) (P : Put N → Bool) :
    (movePut s.puts q t).countP P + (if P q then 1 else 0) =
      s.puts.countP P + t.elim 0 fun st => if P { q with stage := st } then 1 else 0 := by
  have herase := countP_erase_add P mem
  cases t with
  | none =>
    simp only [movePut, Option.map_none, Option.toList_none, List.nil_append, Option.elim_none]
    omega
  | some st =>
    simp only [movePut, Option.map_some, Option.toList_some, List.singleton_append, List.countP_cons,
      Option.elim_some]
    omega

theorem mem_movePut {x : Put N} (h : x ∈ movePut s.puts q t) :
    x ∈ s.puts ∨ ∃ st, t = some st ∧ x = { q with stage := st } := by
  rcases List.mem_append.1 h with h | h
  · cases t with
    | none => cases h
    | some st => exact .inr ⟨st, rfl, List.mem_singleton.1 h⟩
  · exact .inl (List.mem_of_mem_erase h)

theorem reserved_movePut (mem : q ∈ s.puts) (puts : s'.puts = movePut s.puts q t)
    (f : FrameId) : s'.reserved f + (if q.stage = .reserved f then 1 else 0) =
      s.reserved f + if t = some (.reserved f) then 1 else 0 := by
  have hcount := countP_movePut (t := t) mem fun q => q.stage = .reserved f
  rw [reserved, puts, reserved]
  cases t with
  | none => simpa using hcount
  | some st => simpa using hcount

theorem reserved_eq (mem : q ∈ s.puts) (puts : s'.puts = movePut s.puts q t)
    (hold : ∀ f, q.stage ≠ .reserved f) (hnew : ∀ f, t ≠ some (.reserved f)) :
    s'.reserved = s.reserved := by
  funext f
  have := reserved_movePut mem puts f
  rw [if_neg (hold f), if_neg (hnew f)] at this
  omega

theorem Inv.thread (h : Inv me n s) (mem : q ∈ s.puts) (puts : s'.puts = movePut s.puts q t)
    (reached : ∀ p, Run State.step (fun _ act => act.KeepsVictim ∧ act.Logged)
      (State.init { llsn := 0, data := () }) (s'.protocol p))
    (pool : s'.pool.Inv n s'.reserved)
    (present : ∀ p, (s'.pool.pageTable p).isSome = (s'.node me p).buffer.isSome)
    (evicts : ∀ p e, (s'.node me p).evicts.count e +
        (if q.stage.evict = some (p, e) then 1 else 0) =
      (s.node me p).evicts.count e + if t.bind PutStage.evict = some (p, e) then 1 else 0)
    (brings : ∀ p key, supply (s.node me p) key +
        (t.elim 0 fun st => if Put.brings p key { q with stage := st } then 1 else 0) ≤
      supply (s'.node me p) key + if Put.brings p key q then 1 else 0)
    (victim : ∀ q ∈ s'.puts, ∀ f v, q.stage.victim = some (f, v) →
      ∀ g, s'.pool.pageTable v = some g → g = f) : Inv me n s' where
  reached := reached
  pool := pool
  present := present
  evicts p e := by
    have hcount := countP_movePut (t := t) mem fun q => q.stage.evict = some (p, e)
    have hold := h.evicts p e
    have hnew := evicts p e
    rw [puts]
    cases t with
    | none =>
      simp only [Option.elim_none, decide_eq_true_eq, Option.bind_none, reduceCtorEq, if_false]
        at hcount hnew
      omega
    | some st =>
      simp only [Option.elim_some, decide_eq_true_eq, Option.bind_some] at hcount hnew
      omega
  brings p key := by
    have hcount := countP_movePut (t := t) mem (Put.brings p key)
    have hold := h.brings p key
    have hnew := brings p key
    rw [puts]
    omega
  victim := victim

theorem Inv.victim_movePut (h : Inv me n s) (puts : s'.puts = movePut s.puts q t)
    (table : ∀ v g, s'.pool.pageTable v = some g → s.pool.pageTable v = some g)
    (hvictim : ∀ f v, t.bind PutStage.victim = some (f, v) →
      ∀ g, s.pool.pageTable v = some g → g = f) :
    ∀ q ∈ s'.puts, ∀ f v, q.stage.victim = some (f, v) →
      ∀ g, s'.pool.pageTable v = some g → g = f := by
  intro x hx f v hv g hg
  rw [puts] at hx
  rcases mem_movePut hx with hx | ⟨st, rfl, rfl⟩
  · exact h.victim x hx f v hv g (table v g hg)
  · exact hvictim f v hv g (table v g hg)

theorem Inv.move (h : Inv me n s) (mem : q ∈ s.puts) {stage : PutStage}
    (puts : s'.puts = movePut s.puts q (some stage)) (protocol : s'.protocol = s.protocol)
    (pool : s'.pool.Inv n s'.reserved) (table : s'.pool.pageTable = s.pool.pageTable)
    (evict : stage.evict = q.stage.evict) (inserted : stage.inserted = q.stage.inserted)
    (victim : ∀ f v, stage.victim = some (f, v) → s.pool.pageTable v = some f) :
    Inv me n s' := by
  have hnode : ∀ p, s'.node me p = s.node me p := fun p => by rw [node, protocol, node]
  refine h.thread mem puts (fun p => protocol ▸ h.reached p) pool (fun p => ?_) (fun p e => ?_)
    (fun p key => ?_) (h.victim_movePut puts (fun v g hg => table ▸ hg) fun f v hv g hg => ?_)
  · rw [table, hnode]
    exact h.present p
  · rw [hnode, Option.bind_some, evict]
  · rw [hnode]
    simp [Put.brings, inserted]
  · exact Option.some.inj (hg.symm.trans (victim f v hv))

theorem Inv.evictStep (h : Inv me n s) (mem : q ∈ s.puts) (puts : s'.puts = movePut s.puts q t)
    (taken : (s.protocol v).step act = .next st) (ok : act.KeepsVictim ∧ act.Logged)
    (protocol : s'.protocol = update s.protocol v st) (pool : s'.pool.Inv n s.reserved)
    (table : s'.pool.pageTable = s.pool.pageTable)
    (unreserved : ∀ f, q.stage ≠ .reserved f ∧ t ≠ some (.reserved f))
    (buffer : (st.nodes me).buffer = (s.node me v).buffer)
    (fetches : (st.nodes me).fetches = (s.node me v).fetches)
    (pushes : (st.nodes me).pushes = (s.node me v).pushes)
    (evicts : ∀ e, (st.nodes me).evicts.count e + (if q.stage.evict = some (v, e) then 1 else 0) =
      (s.node me v).evicts.count e + if t.bind PutStage.evict = some (v, e) then 1 else 0)
    (only : ∀ p e, q.stage.evict = some (p, e) ∨ t.bind PutStage.evict = some (p, e) → p = v)
    (inserted : ∀ st, t = some st → st.inserted = q.stage.inserted)
    (victim : ∀ f v, t.bind PutStage.victim = some (f, v) → ∀ g, s.pool.pageTable v = some g → g = f) :
    Inv me n s' := by
  have hself : s'.node me v = st.nodes me := by rw [node, protocol, update_self]
  have hother : ∀ {p}, p ≠ v → s'.node me p = s.node me p := fun hp => by
    rw [node, protocol, update_of_ne hp, node]
  refine h.thread mem puts (fun p => ?_) ?_ (fun p => ?_) (fun p e => ?_) (fun p key => ?_)
    (h.victim_movePut puts (fun v g hg => table ▸ hg) victim)
  · rw [protocol]
    by_cases hp : p = v
    · subst hp
      rw [update_self]
      exact (h.reached p).step ok taken
    · rw [update_of_ne hp]
      exact h.reached p
  · rw [reserved_eq mem puts (fun f => (unreserved f).1) fun f => (unreserved f).2]
    exact pool
  · rw [table, h.present]
    by_cases hp : p = v
    · subst hp
      rw [hself, buffer]
    · rw [hother hp]
  · by_cases hp : p = v
    · subst hp
      rw [hself]
      exact evicts e
    · rw [hother hp, if_neg fun heq => hp (only p e (.inl heq)),
        if_neg fun heq => hp (only p e (.inr heq))]
  · have hsupply : supply (s'.node me p) key = supply (s.node me p) key := by
      by_cases hp : p = v
      · subst hp
        rw [hself]
        cases key with
        | inl f => simp only [supply, fetches]
        | inr image => simp only [supply, pushes]
      · rw [hother hp]
    rw [hsupply]
    cases t with
    | none => simp
    | some st => simp [Put.brings, inserted st rfl]

end Thread

variable {st' : State N Unit} {src : PutSource N}

theorem action_spec (taken : st.step (src.action me) = .next st') :
    (st'.nodes me).evicts = (st.nodes me).evicts ∧ (st'.nodes me).buffer.isSome = true ∧
      ∀ key, supply (st'.nodes me) key + (if src.key = key then 1 else 0) =
        supply (st.nodes me) key := by
  cases src with
  | storage f k =>
    cases LazyRelease.step_cases taken with
    | @readStorage _ _ _ lsn mem stage le fresh buf =>
      have hreads : f.reads = true := by simp [Fetch.reads, stage]
      have hcount := fun g => countP_erase_add (fun x => x == g) mem
      refine ⟨by simp [Node.setStage], by simp, fun key => ?_⟩
      cases key with
      | inr image => simp [supply, PutSource.key, Node.setStage]
      | inl g =>
        simp only [supply, PutSource.key, State.setNode, Node.setStage, update_self,
          Sum.inl.injEq]
        by_cases hg : g.reads = true
        · have hnew : ({ f with stage := .pushing [] } : Fetch N) ≠ g := by
            rintro rfl
            simp [Fetch.reads] at hg
          rw [if_pos hg, if_pos hg, List.count_cons_of_ne hnew]
          simpa [List.count] using hcount g
        · have hne : f ≠ g := by
            rintro rfl
            exact hg hreads
          rw [if_neg hg, if_neg hg, if_neg hne]
  | push image =>
    cases LazyRelease.step_cases taken with
    | pushArrive mem buf =>
      have hcount := fun g => countP_erase_add (fun x => x == g) mem
      refine ⟨by simp, by simp, fun key => ?_⟩
      cases key with
      | inl f => simp [supply, PutSource.key]
      | inr g => simpa [supply, PutSource.key, List.count] using hcount g

theorem action_ok (src : PutSource N) : (src.action me).KeepsVictim ∧ (src.action me).Logged := by
  cases src <;> exact ⟨by rintro _ ⟨⟩, trivial⟩

theorem Inv.not_victim (h : Inv me n s) (hN : N < GPLM.EXCLUSIVE_LOCKED)
    (hpos : 0 < supply (s.node me p) key) : (s.node me p).evicts = [] :=
  ((h.page hN p).lock.node me).evicts_nil_of_granting
    (absent_of_supply (h.page hN p) hpos).2

variable {f : FrameId}

theorem evict_of_victim {stage : PutStage} (h : stage.victim = some (f, v)) :
    ∃ e, stage.evict = some (v, e) := by
  cases stage <;> cases h <;> exact ⟨_, rfl⟩

variable {pool : Pool}

theorem Inv.insertFree (h : Inv me n s) (hN : N < GPLM.EXCLUSIVE_LOCKED) (mem : q ∈ s.puts)
    (stage : q.stage = .reserved f) (call : s.pool.insertOrReplace q.page f none = .next pool)
    (taken : (s.protocol q.page).step (q.src.action me) = .next st) :
    Inv me n ({ s.setProtocol q.page st with pool := pool }.endPut q) := by
  have hin : q.stage.inserted = false := by rw [stage]; rfl
  have hpos := h.supply_pos mem hin
  obtain ⟨hevicts, hbuf, hsupply⟩ := action_spec taken
  have hputs : ({ s.setProtocol q.page st with pool := pool }.endPut q).puts =
    movePut s.puts q none := rfl
  have hself : node me ({ s.setProtocol q.page st with pool := pool }.endPut q) q.page =
      st.nodes me := by simp [node, endPut, setProtocol]
  have hother : ∀ {p}, p ≠ q.page →
      node me ({ s.setProtocol q.page st with pool := pool }.endPut q) p = s.node me p := by
    intro p hp
    simp [node, endPut, setProtocol, hp]
  -- the frame was the thread's and is the page's now
  have hreserved : s.reserved = Pool.addOne
      (reserved ({ s.setProtocol q.page st with pool := pool }.endPut q)) (some f) := by
    funext g
    have := reserved_movePut mem hputs g
    simp only [stage, PutStage.reserved.injEq, reduceCtorEq, if_false] at this
    simp only [Pool.addOne, Option.some.injEq]
    omega
  have hinv := h.pool
  rw [hreserved] at hinv
  obtain ⟨pool', hcall, hinv', hins⟩ := hinv.insertFree (h.unmapped hN mem hin)
  obtain rfl : pool' = pool := next.inj (hcall.symm.trans call)
  refine h.thread mem hputs (fun p => ?_) hinv' (fun p => ?_) (fun p e => ?_) (fun p key => ?_) ?_
  · by_cases hp : p = q.page
    · subst hp
      simpa [endPut, setProtocol] using (h.reached _).step (action_ok _) taken
    · simpa [endPut, setProtocol, hp] using h.reached p
  · have htable := hins.pageTable p
    by_cases hp : p = q.page
    · subst hp
      rw [hself, hbuf]
      simpa [endPut] using congrArg Option.isSome htable
    · rw [hother hp, ← h.present]
      simpa [endPut, hp] using congrArg Option.isSome htable
  · by_cases hp : p = q.page
    · subst hp
      rw [hself, hevicts, stage]
      rfl
    · rw [hother hp, stage]
      rfl
  · by_cases hp : p = q.page
    · subst hp
      have := hsupply key
      rw [hself]
      simp only [Option.elim_none, Put.brings, true_and, hin, and_true, decide_eq_true_eq]
      simp only [node] at *
      omega
    · rw [hother hp]
      simp
  · -- the page was nobody's victim
    intro x hx f' v hv g hg
    rw [hputs] at hx
    rcases mem_movePut hx with hx | ⟨_, h', -⟩
    · have htable := hins.pageTable v
      by_cases hvq : v = q.page
      · subst hvq
        obtain ⟨e, he⟩ := evict_of_victim hv
        have hmem := h.evict_mem hx he
        rw [h.not_victim hN hpos] at hmem
        cases hmem
      · rw [if_neg hvq] at htable
        simp only [reduceCtorEq, if_false] at htable
        exact h.victim x hx f' v hv g (htable ▸ hg)
    · cases h'

/-- The page takes the frame of its victim. -/
theorem Inv.replace (h : Inv me n s) (hN : N < GPLM.EXCLUSIVE_LOCKED) {victim : PageId}
    (mem : q ∈ s.puts) (stage : q.stage = .agreed f victim)
    (call : s.pool.insertOrReplace q.page f (some victim) = .next pool)
    (drop : (s.protocol victim).step (.evictReplace me) = .next st)
    (taken : ((s.setProtocol victim st).protocol q.page).step (q.src.action me) = .next st') :
    Inv me n ({ (s.setProtocol victim st).setProtocol q.page st' with pool := pool }.setPut q
      (.replaced victim)) := by
  have hin : q.stage.inserted = false := by rw [stage]; rfl
  have hpos := h.supply_pos mem hin
  have hagreed : .agreed ∈ (s.node me victim).evicts := h.evict_mem mem (by rw [stage]; rfl)
  -- the page is fetched, so it is not the victim
  have hne : q.page ≠ victim := by
    rintro heq
    rw [← heq, h.not_victim hN hpos] at hagreed
    cases hagreed
  have hsame : (s.setProtocol victim st).protocol q.page = s.protocol q.page := by
    simp [setProtocol, hne]
  rw [hsame] at taken
  obtain ⟨hevicts, hbuf, hsupply⟩ := action_spec taken
  obtain ⟨g, hg⟩ := h.mapped_of_buffer (((h.page hN victim).presence me).agreed hagreed)
  obtain rfl : g = f := h.victim q mem f victim (by rw [stage]; rfl) g hg
  obtain ⟨pool', hcall, hinv', hins⟩ := h.pool.replace (h.unmapped hN mem hin) hg
  obtain rfl : pool' = pool := next.inj (hcall.symm.trans call)
  generalize hs' : ({ (s.setProtocol victim st).setProtocol q.page st' with pool := pool' }.setPut q
    (.replaced victim)) = s'
  have hputs : s'.puts = movePut s.puts q (some (.replaced victim)) := by rw [← hs']; rfl
  have hpool : s'.pool = pool' := by rw [← hs']; rfl
  have hprotocol : ∀ p, s'.protocol p = if p = q.page then st' else if p = victim then st
      else s.protocol p := by
    intro p
    rw [← hs']
    simp only [setPut, setProtocol, update_apply]
  have hnode : ∀ p, s'.node me p = (if p = q.page then st' else if p = victim then st
      else s.protocol p).nodes me := fun p => by rw [node, hprotocol]
  have hdrop : (st.nodes me).buffer = none ∧ (st.nodes me).fetches = (s.node me victim).fetches ∧
      (st.nodes me).pushes = (s.node me victim).pushes ∧
      (st.nodes me).evicts = .replaced :: (s.node me victim).evicts.erase .agreed := by
    cases LazyRelease.step_cases drop with
    | evictReplace => simp [node]
  obtain ⟨hnone, hfetches, hpushes, hev⟩ := hdrop
  have hok : (LazyRelease.Action.evictReplace me : LazyRelease.Action N Unit).KeepsVictim ∧
      (LazyRelease.Action.evictReplace me : LazyRelease.Action N Unit).Logged :=
    ⟨by rintro _ ⟨⟩, trivial⟩
  refine h.thread mem hputs (fun p => ?_) ?_ (fun p => ?_) (fun p e => ?_) (fun p key => ?_) ?_
  · rw [hprotocol]
    split
    · exact (h.reached _).step (action_ok _) taken
    · split
      · exact (h.reached _).step hok drop
      · exact h.reached p
  · rw [hpool, reserved_eq mem hputs (by simp [stage]) (by simp)]
    exact hinv'
  · rw [hpool, hins.pageTable, hnode]
    split
    · rw [hbuf]
      rfl
    · simp only [Option.some.injEq, eq_comm (a := victim)]
      split
      · rw [hnone]
        rfl
      · exact h.present p
  · rw [hnode, stage]
    simp only [PutStage.evict, Option.bind_some, Option.some.injEq, Prod.mk.injEq]
    split
    · rename_i hp
      subst hp
      simp [hevicts, Ne.symm hne, node]
    · split
      · rename_i hp
        subst hp
        have hcount := countP_erase_add (fun x => x == e) hagreed
        rw [hev, List.count_cons]
        simp only [List.count, true_and, beq_iff_eq] at hcount ⊢
        omega
      · rename_i hp
        simp [Ne.symm hp, node]
  · rw [hnode]
    have hnot : Put.brings p key { q with stage := .replaced victim } = false := by
      simp [Put.brings, PutStage.inserted]
    simp only [Option.elim_some, hnot, Bool.false_eq_true, if_false, Nat.add_zero]
    split
    · rename_i hp
      subst hp
      have := hsupply key
      simp only [Put.brings, true_and, hin, and_true, decide_eq_true_eq, node]
      omega
    · split
      · rename_i hp
        subst hp
        cases key with
        | inl f => simp [supply, hfetches]
        | inr image => simp [supply, hpushes]
      · simp [node]
  · intro x hx f' v hv g' hg'
    rw [hpool, hins.pageTable] at hg'
    rw [hputs] at hx
    rcases mem_movePut hx with hx | ⟨_, hst, rfl⟩
    · split at hg'
      · rename_i hvq
        subst hvq
        obtain ⟨e, he⟩ := evict_of_victim hv
        have hmem := h.evict_mem hx he
        rw [h.not_victim hN hpos] at hmem
        cases hmem
      · split at hg'
        · cases hg'
        · exact h.victim x hx f' v hv g' hg'
    · cases hst
      cases hv

theorem left_spec (h : s.leftToProtocol me p a = true) : a.byPut me = false ∧ a.Logged := by
  cases a <;> simp_all [leftToProtocol, Action.byPut, Action.Logged]

theorem Inv.protocolStep (h : Inv me n s) (hN : N < GPLM.EXCLUSIVE_LOCKED) (ok : a.KeepsVictim)
    (left : s.leftToProtocol me p a = true) (taken : (s.protocol p).step a = .next st)
    (call : s.poolCall me p a = .next pool) :
    Inv me n { s.setProtocol p st with pool := pool, ready := s.readyAfter me p a } := by
  obtain ⟨hput, hlogged⟩ := left_spec left
  have hkeeps := (LazyRelease.step_cases taken).keeps hput
  have hbuf := (LazyRelease.step_cases taken).buffer_isSome hput
  obtain ⟨pool', hcall, hinv, htable⟩ := poolCall_spec h.pool (fun _ => h.mapped_of_buffer)
    (h.page hN p) (a := a) (by simp [taken])
  obtain rfl : pool' = pool := next.inj (hcall.symm.trans call)
  -- the page leaves the pool when the protocol says so, and other pages stay where they are
  have hpage : ∀ v, pool'.pageTable v =
      if v = p ∧ a.givesUp me = true then none else s.pool.pageTable v := by
    intro v
    split at htable
    · rename_i hgives
      rw [htable, update_apply]
      simp [hgives]
    · rename_i hgives
      simp [htable.pageTable, hgives]
  have hother : ∀ {v}, v ≠ p → node me { s.setProtocol p st with
      pool := pool', ready := s.readyAfter me p a } v = s.node me v := by
    intro v hv
    simp [node, setProtocol, hv]
  have hself : node me { s.setProtocol p st with
      pool := pool', ready := s.readyAfter me p a } p = st.nodes me := by
    simp [node, setProtocol]
  refine ⟨fun v => ?_, hinv, fun v => ?_, fun v e => ?_, fun v key => ?_, ?_⟩
  · by_cases hv : v = p
    · subst hv
      simpa [setProtocol] using (h.reached v).step ⟨ok, hlogged⟩ taken
    · simpa [setProtocol, hv] using h.reached v
  · rw [hpage]
    by_cases hv : v = p
    · subst hv
      have hold := h.present v
      rw [hself, hbuf]
      cases hg : a.givesUp me with
      | true => simp
      | false =>
        simp only [Bool.false_eq_true, and_false, if_false, Bool.not_false, Bool.and_true]
        exact hold
    · rw [hother hv, if_neg fun hgives => hv hgives.1]
      exact h.present v
  · show s.puts.countP _ = _
    rw [h.evicts]
    by_cases hv : v = p
    · subst hv
      rw [hself, hkeeps.evicts]
      rfl
    · rw [hother hv]
  · refine le_trans (h.brings v key) ?_
    by_cases hv : v = p
    · subst hv
      rw [hself]
      cases key with
      | inl f =>
        simp only [supply]
        split
        · exact hkeeps.stored f ‹_›
        · exact le_rfl
      | inr image => exact hkeeps.pushes image
    · rw [hother hv]
  · intro q hq f v hv g hg
    have hg' : pool'.pageTable v = some g := hg
    rw [hpage] at hg'
    split at hg'
    · cases hg'
    · exact h.victim q hq f v hv g hg'

theorem Inv.beginPut (h : Inv me n s) (hand : s.atHand me p src = true) :
    Inv me n { s with puts := { page := p, src := src, stage := .checking } :: s.puts } := by
  refine ⟨h.reached, h.pool, h.present, h.evicts, fun v key => ?_, ?_⟩
  · rw [List.countP_cons]
    by_cases hnew : v = p ∧ src.key = key
    · obtain ⟨rfl, rfl⟩ := hnew
      rw [if_pos (by simp [Put.brings, PutStage.inserted])]
      cases src with
      | storage f k =>
        simp only [atHand, Bool.and_eq_true, decide_eq_true_eq] at hand
        obtain ⟨⟨hmem, hpush⟩, hstage⟩ := hand
        have hzero : s.puts.countP (Put.brings v (.inl f)) = 0 := by
          refine List.countP_eq_zero.2 fun q hq hb => ?_
          simp only [Put.brings, decide_eq_true_eq] at hb
          have hisPush := hpush q hq hb.1
          cases hsrc : q.src with
          | storage f k => simp [hsrc, PutSource.isPush] at hisPush
          | push image => simp [hsrc, PutSource.key] at hb
        have hreads : f.reads = true := by
          split at hstage
          · rename_i hst
            simp only [Fetch.reads, hst]
          · cases hstage
        have hpos := List.count_pos_iff.2 hmem
        simp only [PutSource.key, hzero, supply, hreads, if_true]
        exact hpos
      | push image =>
        simp only [atHand, decide_eq_true_eq] at hand
        refine Nat.succ_le_of_lt (lt_of_le_of_lt (List.countP_mono_left fun q _ hb => ?_) hand)
        simp only [Put.brings, decide_eq_true_eq] at hb ⊢
        refine ⟨hb.1, ?_, hb.2.2⟩
        cases hsrc : q.src with
        | storage f k => simp [hsrc, PutSource.key] at hb
        | push image' =>
          have := hb.2.1
          rw [hsrc] at this
          rw [Sum.inr.inj this]
    · have hnot : ¬ Put.brings v key { page := p, src := src, stage := .checking } = true := by
        simp only [Put.brings, decide_eq_true_eq]
        exact fun hb => hnew ⟨hb.1.symm, hb.2.1⟩
      rw [if_neg hnot]
      exact h.brings v key
  · intro q hq
    rcases List.mem_cons.1 hq with rfl | hq
    · intro f v hv
      cases hv
    · exact h.victim q hq

theorem Inv.evictMove (h : Inv me n s) {t : Option PutStage} (mem : q ∈ s.puts)
    (puts : s'.puts = movePut s.puts q t) {e : Evict} {b : Option Evict}
    (old : q.stage.evict = some (v, e)) (new : t.bind PutStage.evict = b.map (v, ·))
    (taken : (s.protocol v).step act = .next st) (ok : act.KeepsVictim ∧ act.Logged)
    (changed : ∃ lk, st.nodes me = { s.node me v with
      lk := lk, evicts := b.toList ++ (s.node me v).evicts.erase e })
    (protocol : s'.protocol = update s.protocol v st)
    (pool : s'.pool.Inv n s.reserved) (table : s'.pool.pageTable = s.pool.pageTable)
    (unreserved : ∀ f, t ≠ some (.reserved f))
    (inserted : ∀ st, t = some st → st.inserted = q.stage.inserted)
    (victim : ∀ f v, t.bind PutStage.victim = some (f, v) →
      ∀ g, s.pool.pageTable v = some g → g = f) : Inv me n s' := by
  obtain ⟨lk, hnode⟩ := changed
  have hmem := h.evict_mem mem old
  refine h.evictStep mem puts taken ok protocol pool table (fun f => ⟨fun hq => ?_, unreserved f⟩)
    (by rw [hnode]) (by rw [hnode]) (by rw [hnode]) (fun x => ?_) ?_ inserted victim
  · rw [hq] at old
    cases old
  · have hcount := countP_erase_add (fun y => y == x) hmem
    rw [hnode, old, new]
    cases b with
    | none =>
      simp only [Option.toList_none, List.nil_append, List.count, Option.map_none, reduceCtorEq,
        if_false, Option.some.injEq, Prod.mk.injEq, true_and, beq_iff_eq] at hcount ⊢
      omega
    | some b =>
      simp only [Option.toList_some, List.singleton_append, List.count, List.countP_cons,
        Option.map_some, Option.some.injEq, Prod.mk.injEq, true_and, beq_iff_eq] at hcount ⊢
      omega
  · rintro p x (hx | hx)
    · rw [old] at hx
      exact (Prod.mk.inj (Option.some.inj hx)).1.symm
    · rw [new] at hx
      obtain ⟨y, -, hy⟩ := Option.map_eq_some_iff.1 hx
      exact (Prod.mk.inj hy).1.symm

theorem dirEvict_node {lsn : Nat} (taken : st.step (.dirEvict me lsn) = .next st') :
    ∃ agree : Bool, st'.nodes me = { st.nodes me with
      evicts := (if agree then .agreed else .ending) ::
        (st.nodes me).evicts.erase (.asking lsn) } := by
  cases LazyRelease.step_cases taken with
  | @dirEvict _ _ d agree hmem call => exact ⟨agree, update_self ..⟩

/-- Every step keeps the invariant. -/
theorem Inv.step (h : Inv me n s) (hN : N < GPLM.EXCLUSIVE_LOCKED) {a : Action N}
    (ok : s.KeepsVictim a) (hs : Step me s a s') : Inv me n s' := by
  have hmove : ∀ {q : Put N} {stage : PutStage} {r : LRUReplacer}, q ∈ s.puts → r.Listed n →
      stage.evict = q.stage.evict → stage.inserted = q.stage.inserted →
      (∀ f, q.stage ≠ .reserved f ∧ some stage ≠ some (.reserved f)) →
      (∀ f v, stage.victim = some (f, v) → s.pool.pageTable v = some f) →
      Inv me n ({ s with pool := { s.pool with replacer := r } }.setPut q stage) := by
    intro q stage r mem hr hev hin hres hvictim
    refine h.move mem rfl rfl ?_ rfl hev hin hvictim
    rw [reserved_eq mem rfl (fun f => (hres f).1) fun f => (hres f).2]
    exact ⟨⟨h.pool.owned.once, h.pool.owned.mapped⟩, hr⟩
  cases hs with
  | protocol left taken call => exact h.protocolStep hN ok left taken call
  | fetchPage mem stage unready noPut call =>
    obtain ⟨f, hf⟩ := h.mapped_of_buffer
      (((h.page hN _).coherent.copy me).fetched _ mem (by rw [hasPage_of_stage stage]; rfl))
    obtain ⟨pool, hcall, hinv, hpinned⟩ := h.pool.fetchPage hf
    obtain rfl := next.inj (hcall.symm.trans call)
    refine ⟨h.reached, hinv, fun p => ?_, h.evicts, h.brings, fun q hq f v hv g hg => ?_⟩
    · rw [hpinned.same.pageTable]
      exact h.present p
    · exact h.victim q hq f v hv g (hpinned.same.pageTable ▸ hg)
  | beginPut hand => exact h.beginPut hand
  | @checkFree q pool frame mem stage call =>
    obtain ⟨pool', frame', hcall, hinv, htable, -, -⟩ :=
      h.pool.checkIfDirectlyPutInBuffer (h.unmapped hN mem (by rw [stage]; rfl))
    obtain ⟨rfl, rfl⟩ := Prod.mk.inj (next.inj (hcall.symm.trans call))
    refine h.move mem rfl rfl ?_ htable ?_ ?_ ?_
    · have hreserved : reserved ({ s with pool := pool' }.setPut q
          (frame'.elim .choosing .reserved)) = Pool.addOne s.reserved frame' := by
        funext f
        have hcount := countP_movePut (t := some (frame'.elim .choosing .reserved)) mem
          fun q => q.stage = .reserved f
        cases frame' <;> simpa [reserved, setPut, movePut, stage, Pool.addOne] using hcount
      rw [hreserved]
      exact hinv
    · rw [stage]
      cases frame' <;> rfl
    · rw [stage]
      cases frame' <;> rfl
    · cases frame' <;> simp [PutStage.victim]
  | insertFree mem stage call taken => exact h.insertFree hN mem stage call taken
  | startProbe mem stage | probeNext mem stage | readNone mem stage | readVictim mem stage
  | lost mem stage =>
    exact hmove mem h.pool.listed (by rw [stage]; rfl) (by rw [stage]; rfl) (by simp [stage])
      (by simp [PutStage.victim])
  | probeFound mem stage =>
    exact hmove mem h.pool.listed.congr (by rw [stage]; rfl) (by rw [stage]; rfl) (by simp [stage])
      (by rintro _ _ ⟨⟩)
  | endGiveUp mem stage | endWon mem stage =>
    exact hmove mem (h.pool.listed.endVictim _ _) (by rw [stage]; rfl) (by rw [stage]; rfl)
      (by simp [stage]) (by simp [PutStage.victim])
  | @readLost q f victim st mem stage page =>
    simp [KeepsVictim, FindsVictim, stage, page] at ok
  | @readAgain q f victim other mem stage page =>
    simp only [KeepsVictim, FindsVictim, stage] at ok
    refine hmove mem h.pool.listed (by rw [stage]; rfl) (by rw [stage]; rfl) (by simp [stage]) ?_
    rintro _ _ ⟨⟩
    exact (h.pool.owned.mapped _ _).2 ok
  | @won q f victim st mem stage taken =>
    cases LazyRelease.step_cases taken with
    | beginEvict quiet unused kept =>
      refine h.evictStep (t := some (.won f victim)) mem rfl taken ⟨by rintro _ ⟨⟩, trivial⟩ rfl
        h.pool rfl (by simp [stage]) ?_ ?_ ?_ (fun e => ?_) ?_ ?_ (by rintro _ _ ⟨⟩)
      · simp [node]
      · simp [node]
      · simp [node]
      · simp [node, stage, PutStage.evict, List.count_cons]
      · rintro p e (hev | hev)
        · simp [stage, PutStage.evict] at hev
        · simpa [PutStage.evict, eq_comm] using congrArg (Option.map Prod.fst) hev
      · rintro _ ⟨⟩
        rw [stage]
        rfl
  | @checkNone q f victim st mem stage mode taken =>
    cases LazyRelease.step_cases taken with
    | evictNone hmem free hmode =>
      refine h.evictMove (t := some (.ending victim false)) (b := some .ending) mem rfl
        (by rw [stage]; rfl) rfl taken ⟨by rintro _ ⟨⟩, trivial⟩ ⟨_, update_self ..⟩ rfl
        h.pool rfl (by simp) ?_ (by rintro _ _ ⟨⟩)
      rintro _ ⟨⟩
      rw [stage]
      rfl
    | evictAsk hmem free hmode => exact absurd mode hmode
  | @checkAsk q f victim pool pool' st page mem stage mode pin again taken buffer =>
    cases LazyRelease.step_cases taken with
    | evictNone hmem free hmode => exact absurd hmode mode
    | @evictAsk _ page' hmem free hmode hbuf =>
      obtain rfl : page' = page := Option.some.inj (hbuf.symm.trans buffer)
      obtain ⟨g, hg⟩ := h.mapped_of_buffer (p := victim) (by rw [buffer]; simp)
      obtain ⟨p₁, hcall₁, hinv₁, hpin₁⟩ := h.pool.fetchPage hg
      obtain rfl := next.inj (hcall₁.symm.trans pin)
      obtain ⟨p₂, hcall₂, hinv₂, hpin₂⟩ := hinv₁.fetchPage (p := victim) (f := g)
        (by rw [hpin₁.same.pageTable, hg])
      obtain rfl := next.inj (hcall₂.symm.trans again)
      have hold : q.stage.victim = some (f, victim) := by rw [stage]; rfl
      refine h.evictMove (t := some (.asking f victim page'.llsn))
        (b := some (.asking page'.llsn)) mem rfl (by rw [stage]; rfl) rfl taken
        ⟨by rintro _ ⟨⟩, trivial⟩ ⟨_, update_self ..⟩ rfl hinv₂
        (hpin₂.same.pageTable.trans hpin₁.same.pageTable) (by simp) ?_ ?_
      · rintro _ ⟨⟩
        rw [stage]
        rfl
      · rintro _ _ ⟨⟩
        exact h.victim q mem _ _ hold
  | @agreed q f victim lsn st mem stage taken agree =>
    have hold : q.stage.victim = some (f, victim) := by rw [stage]; rfl
    obtain ⟨b, hb⟩ := dirEvict_node taken
    have hagree : b = true := by
      by_contra hb'
      have hmem := h.evict_mem mem (v := victim) (e := .asking lsn) (by rw [stage]; rfl)
      obtain ⟨heq, -⟩ := ((h.page hN victim).lock.node me).evicts_eq hmem
      simp [hb, hb', heq] at agree
    refine h.evictMove (t := some (.agreed f victim)) (b := some .agreed) mem rfl
      (by rw [stage]; rfl) rfl taken ⟨by rintro _ ⟨⟩, trivial⟩ ⟨(s.node me victim).lk, ?_⟩ rfl
      h.pool rfl (by simp) ?_ ?_
    · rw [hb, hagree]
      rfl
    · rintro _ ⟨⟩
      rw [stage]
      rfl
    · rintro _ _ ⟨⟩
      exact h.victim q mem _ _ hold
  | @refused q f victim lsn st mem stage taken refuse =>
    obtain ⟨b, hb⟩ := dirEvict_node taken
    have hrefuse : b = false := by
      by_contra hb'
      simp [hb, hb'] at refuse
    refine h.evictMove (t := some (.ending victim false)) (b := some .ending) mem rfl
      (by rw [stage]; rfl) rfl taken ⟨by rintro _ ⟨⟩, trivial⟩ ⟨(s.node me victim).lk, ?_⟩ rfl
      h.pool rfl (by simp) ?_
      (by rintro _ _ ⟨⟩)
    · rw [hb, hrefuse]
      rfl
    · rintro _ ⟨⟩
      rw [stage]
      rfl
  | @finishEvict q victim st mem stage taken =>
    cases LazyRelease.step_cases taken with
    | evictDone hmem free =>
      refine h.evictMove (t := some (.ending victim true)) (b := some .ending) mem rfl
        (by rw [stage]; rfl) rfl taken ⟨by rintro _ ⟨⟩, trivial⟩ ⟨_, update_self ..⟩ rfl
        h.pool rfl (by simp) ?_ (by rintro _ _ ⟨⟩)
      rintro _ ⟨⟩
      rw [stage]
      rfl
  | @endEvict q victim st mem stage taken =>
    cases LazyRelease.step_cases taken with
    | endEvict hmem free evicting =>
      exact h.evictMove (t := none) (b := none) mem rfl (by rw [stage]; rfl) rfl taken
        ⟨by rintro _ ⟨⟩, trivial⟩ ⟨_, update_self ..⟩ rfl h.pool rfl (by simp) (by simp) (by simp)
  | @retry q victim st mem stage taken =>
    cases LazyRelease.step_cases taken with
    | endEvict hmem free evicting =>
      refine h.evictMove (t := some .choosing) (b := none) mem rfl (by rw [stage]; rfl) rfl
        taken ⟨by rintro _ ⟨⟩, trivial⟩ ⟨_, update_self ..⟩ rfl h.pool rfl (by simp) ?_
          (by rintro _ _ ⟨⟩)
      rintro _ ⟨⟩
      rw [stage]
      rfl
  | replace mem stage call drop taken => exact h.replace hN mem stage call drop taken

theorem Inv.protocolStep_ne_abort (h : Inv me n s) (hN : N < GPLM.EXCLUSIVE_LOCKED) :
    s.protocolStep me p a ≠ .abort := by
  intro habort
  simp only [LazyNode.protocolStep, bind_eq_abort, await_ne_abort, false_or] at habort
  obtain ⟨_, -, habort⟩ := habort
  cases hstep : (s.protocol p).step a with
  | blocked => simp [hstep] at habort
  | abort | next st =>
    obtain ⟨pool, hcall, -⟩ := poolCall_spec h.pool (fun _ => h.mapped_of_buffer) (h.page hN p)
      (a := a) (by simp [hstep])
    simp [hstep, hcall] at habort

theorem tryBeginEvict_ne_abort (lk : LRLocalPageLock N) : lk.tryBeginEvict ≠ .abort := by
  intro habort
  simp only [LRLocalPageLock.tryBeginEvict, LRLocalPageLock.lockMtx, bind_eq_abort] at habort
  rcases habort with (hlock | ⟨_, -, hpure⟩) | ⟨_, -, habort⟩
  · exact Mutex.lock_ne_abort _ hlock
  · cases hpure
  · split at habort
    · cases habort
    · split at habort <;> cases habort

theorem getUnlockType_ne_abort (lk : LRLocalPageLock N) : lk.getUnlockType ≠ .abort := by
  intro habort
  simp only [LRLocalPageLock.getUnlockType, LRLocalPageLock.lockMtx, bind_eq_abort] at habort
  rcases habort with (hlock | ⟨_, -, hpure⟩) | ⟨_, -, habort⟩
  · exact Mutex.lock_ne_abort _ hlock
  · cases hpure
  · cases habort

theorem Inv.victim_mapped (h : Inv me n s) (hN : N < GPLM.EXCLUSIVE_LOCKED) (mem : q ∈ s.puts)
    (stage : q.stage = .chosen f v) (mode : (s.node me v).lk.remoteMode ≠ .none) :
    ∃ g, s.pool.pageTable v = some g := by
  have hmem := h.evict_mem mem (v := v) (e := .chosen) (by rw [stage]; rfl)
  obtain ⟨heq, -⟩ := ((h.page hN v).lock.node me).evicts_eq hmem
  refine h.mapped_of_buffer (((h.page hN v).coherent.copy me).kept mode ?_)
  have heq' : ((s.protocol v).nodes me).evicts = [.chosen] := heq
  simp [heq', Evict.past]

/-- No step aborts. -/
theorem Inv.step_ne_abort (h : Inv me n s) (hN : N < GPLM.EXCLUSIVE_LOCKED) {a : Action N}
    (ok : s.KeepsVictim a) : s.step me a ≠ .abort := by
  cases a with
  | protocol p a => exact h.protocolStep_ne_abort hN
  | fetchPage p f =>
    refine await_bind_ne_abort fun hready => ?_
    obtain ⟨mem, stage, -⟩ := hready
    obtain ⟨g, hg⟩ := h.mapped_of_buffer
      (((h.page hN p).coherent.copy me).fetched f mem (by rw [hasPage_of_stage stage]; rfl))
    obtain ⟨pool, hcall, -⟩ := h.pool.fetchPage hg
    simp [hcall]
  | beginPut p src | startProbe q start => exact await_bind_ne_abort fun _ h => by cases h
  | checkFree q =>
    refine await_bind_ne_abort fun hready => ?_
    obtain ⟨mem, stage⟩ := hready
    obtain ⟨pool, frame, hcall, -⟩ :=
      h.pool.checkIfDirectlyPutInBuffer (h.unmapped hN mem (by rw [stage]; rfl))
    cases frame <;> simp [hcall]
  | insertFree q =>
    refine await_bind_ne_abort fun mem => ?_
    split
    · rename_i f stage
      obtain ⟨pool, hcall, -⟩ := Pool.insertOrReplace_next (f := f) (r := none) h.pool.listed (by simp)
        (h.unmapped hN mem (by rw [stage]; rfl))
      simp [insert, dropVictim, hcall]
    · simp
  | probe q =>
    refine await_bind_ne_abort fun _ => ?_
    split
    · rename_i start i stage
      simp only [KeepsVictim, FindsVictim, stage] at ok
      split
      · simp
      · rename_i hnone
        simp only [hnone, Option.isSome_none, Bool.false_eq_true, or_false] at ok
        rw [cassert_bind ok]
        simp
    · simp
  | readVictim q | readAgain q =>
    refine await_bind_ne_abort fun _ => ?_
    split
    · split <;> simp
    · simp
  | tryBeginEvict q =>
    refine await_bind_ne_abort fun _ habort => ?_
    split at habort
    · rcases bind_eq_abort.1 habort with habort | ⟨⟨lk, ok⟩, -, habort⟩
      · exact tryBeginEvict_ne_abort _ habort
      · cases ok <;> simp at habort
    · cases habort
  | endVictim q =>
    refine await_bind_ne_abort fun _ => ?_
    split <;> simp
  | checkEvict q =>
    refine await_bind_ne_abort fun mem habort => ?_
    split at habort
    · rename_i f victim stage
      rcases bind_eq_abort.1 habort with habort | ⟨⟨lk, k⟩, htype, habort⟩
      · exact getUnlockType_ne_abort _ habort
      · obtain ⟨-, hmode, -⟩ := LRLocalPageLock.getUnlockType_next htype
        by_cases hk : k = 0
        · simp [hk] at habort
        · obtain ⟨g, hg⟩ := h.victim_mapped hN mem stage (hmode.not.1 hk)
          obtain ⟨p₁, hcall₁, hinv₁, hpin₁⟩ := h.pool.fetchPage hg
          obtain ⟨p₂, hcall₂, -⟩ := hinv₁.fetchPage (p := victim) (f := g)
            (by rw [hpin₁.same.pageTable, hg])
          simp only [hk, if_false, hcall₁, hcall₂, next_bind, bind_eq_abort, attempt_ne_abort,
            false_or] at habort
          obtain ⟨st, -, habort⟩ := habort
          split at habort <;> cases habort
    · cases habort
  | askEvict q =>
    refine await_bind_ne_abort fun _ habort => ?_
    split at habort
    · simp only [bind_eq_abort, attempt_ne_abort, false_or] at habort
      obtain ⟨st, -, habort⟩ := habort
      split at habort <;> cases habort
    · cases habort
  | replace q =>
    refine await_bind_ne_abort fun mem => ?_
    split
    · rename_i f victim stage
      have hagreed : .agreed ∈ (s.node me victim).evicts := h.evict_mem mem (by rw [stage]; rfl)
      obtain ⟨g, hg⟩ := h.mapped_of_buffer (((h.page hN victim).presence me).agreed hagreed)
      obtain ⟨pool, hcall, -⟩ := Pool.insertOrReplace_next (f := f) (r := some victim) h.pool.listed
        (by rintro _ ⟨⟩; simp [hg]) (h.unmapped hN mem (by rw [stage]; rfl))
      simp [insert, dropVictim, hcall]
    · simp
  | finishEvict q | endEvict q =>
    refine await_bind_ne_abort fun _ => ?_
    split
    · simp
    · simp

/-- Frame `f` is in one free list once, or mapped by one page whose id it carries, or taken by one
thread, and only one of these. -/
def OwnedOnce (s : LazyNode N) (f : FrameId) : Prop :=
  (s.pool.freeCount f = 1 ∧ (∀ p, s.pool.pageTable p ≠ some f) ∧ s.reserved f = 0) ∨
  (s.pool.freeCount f = 0 ∧ (∃ p, (s.pool.pages f).pageId = some p ∧
    ∀ p', s.pool.pageTable p' = some f ↔ p' = p) ∧ s.reserved f = 0) ∨
  (s.pool.freeCount f = 0 ∧ (∀ p, s.pool.pageTable p ≠ some f) ∧ s.reserved f = 1)

theorem Inv.ownedOnce (h : Inv me n s) (hf : f < n) : s.OwnedOnce f := by
  have honce := h.pool.owned.once f
  rw [if_pos hf] at honce
  cases hpage : (s.pool.pages f).pageId with
  | none =>
    have hnot : ∀ p, s.pool.pageTable p ≠ some f := fun p hp => by
      rw [(h.pool.owned.mapped p f).1 hp] at hpage
      cases hpage
    simp only [hpage, Option.isSome_none, Bool.toNat_false] at honce
    rcases Nat.eq_zero_or_pos (s.pool.freeCount f) with hfree | hfree
    · exact .inr (.inr ⟨hfree, hnot, by omega⟩)
    · exact .inl ⟨by omega, hnot, by omega⟩
  | some p =>
    simp only [hpage, Option.isSome_some, Bool.toNat_true] at honce
    refine .inr (.inl ⟨by omega, ⟨p, hpage, fun p' => ?_⟩, by omega⟩)
    rw [h.pool.owned.mapped, hpage, Option.some.injEq, eq_comm]

theorem inv_of_run (hN : N < GPLM.EXCLUSIVE_LOCKED)
    (run : Run (LazyNode.step me) KeepsVictim (init n) s) : Inv me n s :=
  run.invariant (inv_init n) fun h ok taken => h.step hN ok (step_cases taken)

/-- In every run in which `tryVictim` finds a frame and the second read of the frame finds the victim
again, on this node and on the others: every frame of the pool has exactly one owner, pages are only
mapped to frames of the pool, and no assertion of the pool fails. -/
theorem frames_owned (hN : N < GPLM.EXCLUSIVE_LOCKED)
    (run : Run (LazyNode.step me) KeepsVictim (init n) s) :
    (∀ f, f < n → s.OwnedOnce f) ∧ (∀ p f, s.pool.pageTable p = some f → f < n) ∧
      ∀ a, s.KeepsVictim a → s.step me a ≠ .abort := by
  have h := inv_of_run hN run
  exact ⟨fun f hf => h.ownedOnce hf, fun p f hp => h.pool.owned.lt_of_mapped hp,
    fun a ok => h.step_ne_abort hN ok⟩

end LazyNode

/-- The fetch of a reader on node 0 that the directory has sent to storage. -/
def storageRead : PutSource 2 := .storage ⟨false, .answered (.storageFetch 0)⟩ 0

/-- A reader on node 0 fetches page `p` from storage into the free frame `f`, and releases it. -/
def readOnce (p : PageId) (f : FrameId) : List (Action 2) :=
  [.protocol p (.lock 0 false), .protocol p (.dirLock 0 ⟨false, .asking⟩), .beginPut p storageRead,
    .checkFree ⟨p, storageRead, .checking⟩, .insertFree ⟨p, storageRead, .reserved f⟩,
    .protocol p (.fetchDone 0 ⟨false, .pushing []⟩), .protocol p (.release 0 false),
    .protocol p (.releasePush 0 ⟨false, 0, none⟩),
    .protocol p (.releaseFinish 0 ⟨false, 0, some false⟩)]

/-- A reader on node 0 asks for page `p`, finds no free frame and chooses the victim in frame `f`. -/
def chooseVictim (p : PageId) (f : FrameId) : List (Action 2) :=
  [.protocol p (.lock 0 false), .protocol p (.dirLock 0 ⟨false, .asking⟩), .beginPut p storageRead,
    .checkFree ⟨p, storageRead, .checking⟩, .startProbe ⟨p, storageRead, .choosing⟩ 0,
    .probe ⟨p, storageRead, .probing 0 0⟩, .readVictim ⟨p, storageRead, .picked f⟩]

/-- It evicts the victim and takes its frame. -/
def replaceVictim (p : PageId) (f : FrameId) (victim : PageId) : List (Action 2) :=
  [.tryBeginEvict ⟨p, storageRead, .read f victim⟩, .endVictim ⟨p, storageRead, .won f victim⟩,
    .readAgain ⟨p, storageRead, .begun f victim⟩, .checkEvict ⟨p, storageRead, .chosen f victim⟩,
    .askEvict ⟨p, storageRead, .asking f victim 0⟩, .replace ⟨p, storageRead, .agreed f victim⟩]

/-- A writer on node 1 takes page `p` from node 0, and releases it. -/
def takenAway (p : PageId) : List (Action 2) :=
  [.protocol p (.lock 1 true), .protocol p (.dirLock 1 ⟨true, .asking⟩),
    .protocol p (.pending 0 ⟨false, some 1⟩), .protocol p (.pendingFinish 0 ⟨1, some 1⟩),
    .protocol p (.dirUnlock 0 ⟨false, false⟩), .protocol p (.unlockReturn 0 ⟨false, true⟩),
    .protocol p (.pushArrive 1 ⟨0, ()⟩), .protocol p (.pushNotify 1),
    .protocol p (.lockSuccess 1 ⟨true, false, []⟩),
    .protocol p (.gotLock 1 ⟨true, .answered .waitLockRelease⟩),
    .protocol p (.takePushList 1 ⟨true, .granted⟩), .protocol p (.fetchDone 1 ⟨true, .pushing []⟩),
    .protocol p (.release 1 true), .protocol p (.releasePush 1 ⟨true, 0, none⟩),
    .protocol p (.releaseFinish 1 ⟨true, 0, some false⟩)]

/-- Node 1 evicts page `p`. -/
def evictedElsewhere (p : PageId) : List (Action 2) :=
  [.protocol p (.beginEvict 1), .protocol p (.evictCheck 1), .protocol p (.dirEvict 1 0),
    .protocol p (.evictReplace 1), .protocol p (.evictDone 1), .protocol p (.endEvict 1)]

/-- With one frame, page 16 takes the frame of page 0. -/
theorem LazyNode.frames_owned_after_eviction :
    ∃ s : LazyNode 2, s.pool.pageTable 0 = none ∧ s.pool.pageTable 16 = some 0 ∧
      s.OwnedOnce 0 := by
  obtain ⟨s, run, hs⟩ := Run.of_reaches (LazyNode.step 0) LazyNode.KeepsVictim
    (readOnce 0 0 ++ chooseVictim 16 0 ++ replaceVictim 16 0 0) (LazyNode.init 1)
    (fun s => decide (s.pool.pageTable 0 = none ∧ s.pool.pageTable 16 = some 0))
    (by decide +kernel)
  obtain ⟨h0, h16⟩ := of_decide_eq_true hs
  exact ⟨s, h0, h16, (LazyNode.frames_owned (by decide) run).1 0 (by decide)⟩

/-- The thread for page 32 reads in frame 0 that its victim is page 0. Before it goes on, node 1 takes
pages 0 and 48 away, page 16 gets frame 0, and page 0 comes back in frame 16. The thread then evicts
page 0, which it finds idle, and takes frame 0. -/
def staleVictimRun : List (Action 2) :=
  readOnce 0 0 ++ readOnce 48 16 ++ chooseVictim 32 0 ++ takenAway 0 ++ evictedElsewhere 0 ++
    takenAway 48 ++ readOnce 16 0 ++ readOnce 0 16 ++ replaceVictim 32 0 0

/-- The only frame is in use, so the thread for page 16 looks into all partitions in vain. -/
def noVictimRun : List (Action 2) :=
  (readOnce 0 0).take 6 ++ (chooseVictim 16 0).take 5 ++
    (List.range 15).map fun i => .probe ⟨16, storageRead, .probing 0 i⟩

/-- Two pages may be mapped to one frame, and the assertion in `tryVictim` may fail. -/
theorem LazyNode.frame_of_two_pages :
    (∃ s : LazyNode 2, Run (LazyNode.step 0) (fun _ _ => True) (LazyNode.init 17) s ∧
      s.pool.pageTable 16 = some 0 ∧ s.pool.pageTable 32 = some 0 ∧ ¬ s.OwnedOnce 0) ∧
    ∃ s : LazyNode 2, Run (LazyNode.step 0) (fun _ _ => True) (LazyNode.init 1) s ∧
      s.step 0 (.probe ⟨16, storageRead, .probing 0 15⟩) = .abort := by
  constructor
  · obtain ⟨s, run, hs⟩ := Run.of_reaches (LazyNode.step 0) (fun _ _ => True) staleVictimRun
      (LazyNode.init 17)
      (fun s => decide (s.pool.pageTable 16 = some 0 ∧ s.pool.pageTable 32 = some 0))
      (by decide +kernel)
    obtain ⟨h16, h32⟩ := of_decide_eq_true hs
    refine ⟨s, run, h16, h32, ?_⟩
    rintro (⟨-, hnone, -⟩ | ⟨-, ⟨p, -, hp⟩, -⟩ | ⟨-, hnone, -⟩)
    · exact hnone 16 h16
    · exact absurd (((hp 16).1 h16).trans ((hp 32).1 h32).symm) (by decide)
    · exact hnone 16 h16
  · obtain ⟨s, run, hs⟩ := Run.of_reaches (LazyNode.step 0) (fun _ _ => True) noVictimRun
      (LazyNode.init 1)
      (fun s => (s.step 0 (.probe ⟨16, storageRead, .probing 0 15⟩)).aborts) (by decide +kernel)
    exact ⟨s, run, Outcome.of_aborts hs⟩

end BufferPool
