import HybridCloud.LazyRelease.LockCalls
import HybridCloud.LazyRelease.Proofs.WalTransfer

/-!
# Interrupted lock calls

As long as no eviction loses its victim, the mutex of a node is held by exactly one of: a release, a
Pending handler or an unlock call in its window, an eviction that waits for the log, and a lock call
between its tests and its stores. So nobody changes the local lock under a lock call, and its stores
complete it as if it had not been interrupted (`Inv.step`). Once a victim has been lost both mutual
exclusion and the order of log and page can fail.
-/

namespace PageTransfer

open GPLM LazyRelease LRLocalPageLock Logging Storage Outcome Function

variable {N : Nat} {α : Type} {key : PageKey} {n : NodeId N} {nd nd' : Node N α} {k : Nat}

/-- The mutex is taken exactly when a thread is in a window or one of `k` further threads holds it. -/
structure Held (k : Nat) (nd : Node N α) : Prop where
  le : nd.windows + k ≤ 1
  held : nd.lk.mutex.held = decide (nd.windows + k = 1)

namespace Held

theorem zero_of_free (h : Held k nd) (free : nd.lk.mutex.held = false) :
    nd.windows = 0 ∧ k = 0 := by
  have hle := h.le
  have hne : nd.windows + k ≠ 1 := by simpa [h.held] using free
  omega

theorem move (h : Held k nd) (move : MutexMove nd nd') : Held k nd' := by
  have hle := h.le
  cases move with
  | keep mutex windows => exact ⟨windows ▸ hle, by rw [mutex, windows]; exact h.held⟩
  | enter free mutex windows =>
    obtain ⟨h0, hk⟩ := h.zero_of_free free
    exact ⟨by omega, by simp [mutex, windows, h0, hk]⟩
  | exit mutex windows => exact ⟨by omega, by simp [mutex, Mutex.unlock]; omega⟩

/-- While one of the further threads holds the mutex, nobody else changes the lock. -/
theorem lk_eq (h : Held k nd) (hk : 0 < k) (move : MutexMove nd nd') : nd'.lk = nd.lk := by
  have hle := h.le
  have hheld : nd.lk.mutex.held = true := by rw [h.held, decide_eq_true_eq]; omega
  cases move with
  | keep _ _ lk => exact lk hheld (by omega)
  | enter free => simp [hheld] at free
  | exit _ windows => omega

end Held

section Transfer

variable {t t' : State N α}

/-- How many evictions of node `n` hold the mutex while they wait for the log. -/
def waits (t : State N α) (n : NodeId N) : Nat := (t.evict n).isSome.toNat

/-- A step of `PageTransfer` that lets node `n` keep to the mutex, whoever else is inside of it. -/
def Respects (t t' : State N α) (n : NodeId N) : Prop :=
  ∀ k, Held (waits t n + k) (t.sys.nodes n) →
    Held (waits t' n + k) (t'.sys.nodes n) ∧
      (0 < k → (t'.sys.nodes n).lk = (t.sys.nodes n).lk)

theorem Respects.of_move (hev : waits t' n = waits t n)
    (move : MutexMove (t.sys.nodes n) (t'.sys.nodes n)) : Respects t t' n := fun k h =>
  ⟨hev ▸ h.move move, fun hk => h.lk_eq (by omega) move⟩

theorem Respects.of_eq (hev : waits t' n = waits t n) (hsys : t'.sys = t.sys) : Respects t t' n :=
  .of_move hev (hsys ▸ .of_lk rfl rfl)

/-- A step of the protocol, whatever else it changes beside the nodes. -/
theorem Respects.of_protocol [DecidableEq α] {a : LazyRelease.Action N α} (ha : a.KeepsVictim)
    (hev : waits t' n = waits t n) (taken : t.sys.step a = .next t'.sys) : Respects t t' n :=
  .of_move hev (mutexMove_step ha (step_cases taken) n)

theorem Respects.trans {t₁ : State N α} (h : Respects t t₁ n) (h₁ : Respects t₁ t' n) :
    Respects t t' n := by
  intro k held
  obtain ⟨held₁, hlk⟩ := h k held
  obtain ⟨held', hlk₁⟩ := h₁ k held₁
  exact ⟨held', fun hk => (hlk₁ hk).trans (hlk hk)⟩

theorem waitLogFlush_frame {k : Nat} {wait wait' : LogWait}
    (taken : t.waitLogFlush n k wait = .next (t', wait')) : t'.sys = t.sys ∧ t'.evict = t.evict := by
  cases wait with
  | entering =>
    obtain ⟨rfl, rfl⟩ := taken
    exact ⟨rfl, rfl⟩
  | waiting lsn =>
    simp only [State.waitLogFlush, bind_eq_next] at taken
    obtain ⟨-, -, taken⟩ := taken
    obtain ⟨rfl, rfl⟩ := taken
    exact ⟨rfl, rfl⟩
  | done => cases taken

theorem evictStart_respects {m : NodeId N} (taken : t.evictStart m = .next t') (n : NodeId N) :
    Respects t t' n := by
  simp only [State.evictStart, bind_eq_next, await_eq_next] at taken
  obtain ⟨-, ⟨-, hnone⟩, ⟨lk, unlockRemote⟩, hcall, taken⟩ := taken
  obtain ⟨free, -, rfl⟩ := getUnlockType_next hcall
  split at taken
  · obtain rfl := next.inj taken
    refine .of_move rfl (MutexMove.setNode ?_ n)
    refine .of_free free ?_ rfl
    exact Mutex.unlock_of_relock free
  · simp only [bind_eq_next, cassert_eq_next, pure_def, next.injEq] at taken
    obtain ⟨-, -, rfl⟩ := taken
    by_cases hn : n = m
    · subst hn
      intro k h
      obtain ⟨h0, hk⟩ := h.zero_of_free free
      refine ⟨⟨?_, ?_⟩, by omega⟩ <;>
        simp_all [waits, LazyRelease.State.setNode, Node.windows, takeMtx]
    · refine .of_move (by simp [waits, hn]) ?_
      simpa [LazyRelease.State.setNode, hn] using MutexMove.of_lk rfl rfl

theorem evictAsk_respects {m : NodeId N} (taken : t.evictAsk m = .next t') (n : NodeId N) :
    Respects t t' n := by
  unfold State.evictAsk at taken
  split at taken
  · rename_i e page he hbuf
    simp only [bind_eq_next, await_eq_next, pure_def, next.injEq] at taken
    obtain ⟨-, -, rfl⟩ := taken
    by_cases hn : n = m
    · subst hn
      intro k h
      have hle := h.le
      simp only [waits, he, Option.isSome_some, Bool.toNat_true] at hle
      refine ⟨⟨?_, ?_⟩, by omega⟩
      · simp [waits, LazyRelease.State.setEvict, LazyRelease.State.setNode, Node.windows] at hle ⊢
        omega
      · simp [waits, LazyRelease.State.setEvict, LazyRelease.State.setNode, Node.windows, unlockMtx,
          Mutex.unlock] at hle ⊢
        omega
    · refine .of_move (by simp [waits, hn]) ?_
      simpa [LazyRelease.State.setEvict, LazyRelease.State.setNode, hn] using MutexMove.of_lk rfl rfl
  · cases taken
  · cases taken

/-- No eviction loses its victim. -/
def Action.KeepsVictim : Action N α → Prop
  | .protocol a => a.KeepsVictim
  | _ => True

instance (a : Action N α) : Decidable a.KeepsVictim := by
  unfold Action.KeepsVictim
  split <;> infer_instance

theorem sendPage_move (s : LazyRelease.State N α) (dest : NodeId N) (page : Page α) (n : NodeId N) :
    MutexMove (s.nodes n) ((sendPage s dest page).nodes n) := by
  refine MutexMove.setNode ?_ n
  exact .of_lk rfl rfl

/-- Every step of `PageTransfer` respects the mutexes. -/
theorem step_respects [DecidableEq α] {a : Action N α} (h : Inv key t) (ha : a.KeepsVictim)
    (taken : step key t a = .next t') (n : NodeId N) : Respects t t' n := by
  cases a with
  | protocol a =>
    simp only [PageTransfer.step, State.protocol, bind_eq_next, pure_def, next.injEq] at taken
    obtain ⟨-, -, sys, hsys, rfl⟩ := taken
    exact .of_protocol ha rfl hsys
  | log m a =>
    simp only [PageTransfer.step, State.log, bind_eq_next, pure_def, next.injEq] at taken
    obtain ⟨-, -, b, -, rfl⟩ := taken
    exact .of_eq rfl rfl
  | write m f log =>
    simp only [PageTransfer.step, State.write] at taken
    split at taken
    · cases taken
    · simp only [bind_eq_next, pure_def, next.injEq] at taken
      obtain ⟨-, -, b, -, sys, hsys, rfl⟩ := taken
      exact .of_protocol (a := .write m f b.currentLLSN) (by rintro _ ⟨⟩) rfl hsys
  | writeUnlogged m f =>
    simp only [PageTransfer.step, State.writeUnlogged, bind_eq_next, pure_def, next.injEq] at taken
    obtain ⟨sys, hsys, rfl⟩ := taken
    exact .of_protocol (a := .writeUnlogged m f) (by rintro _ ⟨⟩) rfl hsys
  | readStorage m f k =>
    simp only [PageTransfer.step, State.readStorage, bind_eq_next, pure_def, next.injEq] at taken
    obtain ⟨-, -, sys, hsys, rfl⟩ := taken
    exact .of_protocol (a := .readStorage m f k) (by rintro _ ⟨⟩) rfl hsys
  | pushArrive m page =>
    simp only [PageTransfer.step, State.pushArrive, bind_eq_next, pure_def, next.injEq] at taken
    obtain ⟨sys, hsys, rfl⟩ := taken
    exact .of_protocol (a := .pushArrive m page) (by rintro _ ⟨⟩) rfl hsys
  | startPush src c scheduled =>
    simp only [PageTransfer.step, State.startPush, bind_eq_next] at taken
    obtain ⟨-, -, taken⟩ := taken
    split at taken
    · simp only [bind_eq_next, pure_def, next.injEq] at taken
      obtain ⟨-, -, rfl⟩ := taken
      exact .of_eq rfl rfl
    · split at taken <;> cases taken
    · cases taken
  | pushWait call =>
    simp only [PageTransfer.step, State.pushWait, bind_eq_next] at taken
    obtain ⟨-, -, ⟨t₁, wait⟩, hwait, taken⟩ := taken
    obtain rfl := next.inj taken
    obtain ⟨hsys, hevict⟩ := waitLogFlush_frame hwait
    exact .of_eq (congrArg (fun e => (e n).isSome.toNat) hevict) hsys
  | pushSend call =>
    simp only [PageTransfer.step, State.pushSend, bind_eq_next, await_eq_next, pure_def,
      next.injEq] at taken
    obtain ⟨-, ⟨hc, -, hdone⟩, sys, hsys, rfl⟩ := taken
    have hsent := h.send call.dest ((h.call call hc).done hdone)
    have go := afterPush_next hsys (hsent.busy_pos hc)
    have hsend : Respects t { t with sys := sendPage t.sys call.dest call.pageData } n :=
      .of_move rfl (sendPage_move _ _ _ n)
    exact hsend.trans (.of_move rfl (go.moves n))
  | schedule call =>
    simp only [PageTransfer.step, State.schedule, bind_eq_next, await_eq_next, pure_def,
      next.injEq] at taken
    obtain ⟨-, ⟨hc, -⟩, sys, hsys, rfl⟩ := taken
    exact .of_move rfl ((afterPush_next hsys (h.busy_pos hc)).moves n)
  | runTask task =>
    simp only [PageTransfer.step, State.runTask, bind_eq_next, pure_def, next.injEq] at taken
    obtain ⟨-, -, rfl⟩ := taken
    exact .of_move rfl (sendPage_move _ _ _ n)
  | evictStart m => exact evictStart_respects taken n
  | evictWait m =>
    simp only [PageTransfer.step, State.evictWait] at taken
    split at taken
    · cases taken
    · rename_i e he
      simp only [bind_eq_next] at taken
      obtain ⟨⟨t₁, wait⟩, hwait, taken⟩ := taken
      obtain rfl := next.inj taken
      obtain ⟨hsys, hevict⟩ := waitLogFlush_frame hwait
      refine .of_eq ?_ hsys
      by_cases hn : n = m
      · subst hn
        simp [waits, he]
      · simp [waits, hn, hevict]
  | evictAsk m => exact evictAsk_respects taken n

end Transfer

theorem step_protocol_of [DecidableEq α] {s : State N α} {sys : LazyRelease.State N α}
    {a : LazyRelease.Action N α} (plain : s.plain a = true) (taken : s.sys.step a = .next sys) :
    step key s (.protocol a) = .next { s with sys := sys } := by
  simp [step, State.protocol, await, plain, taken]

theorem Inv.setMutex {s : State N α} (h : Inv key s) (n : NodeId N) (m : Mutex) :
    Inv key { s with sys := s.sys.setNode n { s.sys.nodes n with
      lk := { (s.sys.nodes n).lk with mutex := m } } } := by
  refine h.quiet (h.lock.setNode ((h.lock.node n).congr rfl rfl))
    (h.busy_setNode (.of_eq rfl rfl rfl)) ?_
  apply Quiet.of_node <;> rfl

end PageTransfer

namespace LockCalls

open GPLM LazyRelease LRLocalPageLock Outcome Function
open PageTransfer (Held waits PushCall)
open Storage (PageKey LogRecord)

variable {N : Nat} {α : Type} {key : PageKey} {n : NodeId N} {s s' : State N α}

/-- No eviction loses its victim. -/
def Action.KeepsVictim : Action N α → Prop
  | .transfer a => a.KeepsVictim
  | _ => True

instance (a : Action N α) : Decidable a.KeepsVictim := by
  unfold Action.KeepsVictim
  split <;> infer_instance

/-- What holds while lock calls are interrupted. -/
structure Inv (key : PageKey) (s : State N α) : Prop where
  transfer : PageTransfer.Inv key s.transfer
  held : ∀ n, Held (waits s.transfer n + (s.calls n).length) (s.sys.nodes n)
  /-- What a lock call has tested still holds. -/
  passed : ∀ n, ∀ c ∈ s.calls n, c.Passed (s.sys.nodes n).lk

theorem lock_of_passed {st : LazyRelease.State N α} {c : LockCall} (h : c.Passed (st.nodes n).lk)
    (held : (st.nodes n).lk.mutex.held = true) :
    (st.setNode n { st.nodes n with lk := (st.nodes n).lk.freeMtx }).lock n c.x =
      st.afterLock n c.x ((st.nodes n).lk.lockStores c) c.lockRemote := by
  have hcall := h.lockStores held
  cases hx : c.x <;> simp only [hx, Bool.false_eq_true, if_false, if_true] at hcall <;>
    simp [LazyRelease.State.lock, LazyRelease.State.afterLock, LazyRelease.State.setNode, hcall]

/-- Only the node itself changes. -/
theorem afterLock_next {st st' : LazyRelease.State N α} {x b : Bool} {lk : LRLocalPageLock N}
    (h : st.afterLock n x lk b = .next st') :
    ∃ nd : Node N α, st' = st.setNode n nd ∧ nd.lk = lk ∧ nd.windows = (st.nodes n).windows := by
  cases b with
  | true => exact ⟨_, (next.inj h).symm, rfl, rfl⟩
  | false =>
    simp only [LazyRelease.State.afterLock, Bool.false_eq_true, if_false, bind_eq_next, pure_def,
      next.injEq] at h
    obtain ⟨-, -, rfl⟩ := h
    exact ⟨_, rfl, rfl, rfl⟩

namespace Inv

/-- Node `n` and its lock calls have changed, while no eviction of it waits for the log. -/
theorem setNode {nd : Node N α} {calls : List LockCall} (h : Inv key s)
    (transfer : PageTransfer.Inv key { s.transfer with sys := s.sys.setNode n nd })
    (hwaits : waits s.transfer n = 0) (held : Held calls.length nd)
    (passed : ∀ c ∈ calls, c.Passed nd.lk) :
    Inv key ⟨{ s.transfer with sys := s.sys.setNode n nd }, update s.calls n calls⟩ := by
  refine ⟨transfer, fun m => ?_, fun m c hc => ?_⟩ <;> by_cases hm : m = n
  · subst hm
    have hnode : Held (waits s.transfer m + calls.length) nd := by rwa [hwaits, Nat.zero_add]
    simpa [State.sys, LazyRelease.State.setNode, waits] using hnode
  · simpa [State.sys, LazyRelease.State.setNode, hm, waits] using h.held m
  · subst hm
    simp only [update_self] at hc
    simpa [State.sys, LazyRelease.State.setNode] using passed c hc
  · simp only [update_of_ne hm] at hc
    simpa [State.sys, LazyRelease.State.setNode, hm] using h.passed m c hc

theorem lockTests {x : Bool} (h : Inv key s) (taken : s.lockTests n x = .next s') :
    Inv key s' := by
  simp only [State.lockTests, bind_eq_next] at taken
  obtain ⟨⟨lk, c⟩, hcall, taken⟩ := taken
  obtain rfl := next.inj taken
  obtain ⟨free, hpassed, rfl⟩ := lockTests_next hcall
  obtain ⟨h0, hk⟩ := (h.held n).zero_of_free free
  rw [List.length_eq_zero_iff.1 (by omega : (s.calls n).length = 0)]
  refine h.setNode (h.transfer.setMutex n _) (by omega) ?_ ?_
  · exact ⟨by simpa [Node.windows] using h0.le, by simpa [Node.windows, takeMtx] using h0⟩
  · exact List.forall_mem_singleton.2 { hpassed with }

theorem lockStores [DecidableEq α] {c : LockCall} (hN : N < EXCLUSIVE_LOCKED) (h : Inv key s)
    (taken : s.lockStores n c = .next s') : Inv key s' := by
  simp only [State.lockStores, bind_eq_next, await_eq_next] at taken
  obtain ⟨-, hc, sys, hsys, taken⟩ := taken
  obtain rfl := next.inj taken
  have hle := (h.held n).le
  have hpos := List.length_pos_of_mem hc
  have hheld : (s.sys.nodes n).lk.mutex.held = true := by
    rw [(h.held n).held, decide_eq_true_eq]
    omega
  have hcalls : (s.calls n).erase c = [] := by
    have := Counting.length_erase_add hc
    exact List.length_eq_zero_iff.1 (by omega)
  -- the call, had it not been interrupted, in the state with the mutex free
  have hfree := h.transfer.setMutex n { (s.sys.nodes n).lk.mutex with held := false }
  have hlock := (lock_of_passed (h.passed n c hc) hheld).trans hsys
  have htransfer := hfree.step hN (PageTransfer.step_protocol_of (a := .lock n c.x) rfl hlock)
  obtain ⟨nd, rfl, hlk, hw⟩ := afterLock_next hsys
  rw [hcalls]
  refine h.setNode htransfer (by omega) ⟨?_, ?_⟩ (List.forall_mem_nil _)
  · rw [hw, List.length_nil]
    omega
  · simp [hlk, LRLocalPageLock.lockStores, unlockMtx, Mutex.unlock]
    omega

theorem step [DecidableEq α] (hN : N < EXCLUSIVE_LOCKED) (h : Inv key s) {a : Action N α}
    (ha : a.KeepsVictim) (taken : LockCalls.step key s a = .next s') : Inv key s' := by
  cases a with
  | transfer a =>
    simp only [LockCalls.step, bind_eq_next, pure_def, next.injEq] at taken
    obtain ⟨t, ht, rfl⟩ := taken
    have hrespects := fun n => PageTransfer.step_respects h.transfer ha ht n _ (h.held n)
    refine ⟨h.transfer.step hN ht, fun n => (hrespects n).1, fun n c hc => ?_⟩
    rw [State.sys, (hrespects n).2 (List.length_pos_of_mem hc)]
    exact h.passed n c hc
  | lockTests n x => exact h.lockTests taken
  | lockStores n c => exact h.lockStores hN taken

theorem init (hN : N < EXCLUSIVE_LOCKED) (base : Page α) :
    Inv key (State.init base : State N α) := by
  refine ⟨PageTransfer.inv_init hN key base, fun n => ⟨?_, rfl⟩, fun n c hc => ?_⟩
  · show 0 + 0 + 0 ≤ 1
    decide
  · cases hc

end Inv

section Runs

variable [DecidableEq α] {base : Page α}

theorem inv_of_run (hN : N < EXCLUSIVE_LOCKED)
    (run : Run (step key) (fun _ a => a.KeepsVictim) (State.init base) s) : Inv key s :=
  run.invariant (Inv.init hN base) fun h ok taken => h.step hN ok taken

/-- Page-level mutual exclusion: in every state that an interleaving in which no eviction loses its
victim reaches from all locks free, if one node has a writer that does not wait for the directory,
then no other node has a reader or a writer that does not wait for the directory. -/
theorem page_mutual_exclusion (hN : N < EXCLUSIVE_LOCKED)
    (run : Run (step key) (fun _ a => a.KeepsVictim) (State.init base) s) (n m : NodeId N)
    (hne : n ≠ m) :
    ¬ (((s.sys.nodes n).lk.lock = EXCLUSIVE_LOCKED ∧ (s.sys.nodes n).lk.isGranting = false) ∧
      ((s.sys.nodes m).lk.lock ≠ 0 ∧ (s.sys.nodes m).lk.isGranting = false)) := by
  rintro ⟨⟨hn, hng⟩, hm, hmg⟩
  have h : LockInv s.sys := (inv_of_run hN run).transfer.lock
  have hmem := h.holder_of_used hmg hm
  rw [h.excl_of_writer hng hn, List.mem_singleton] at hmem
  exact hne hmem.symm

/-- Node 0 has the page exclusively and node 1 has asked for it, both with lock calls that were
interrupted; node 0 has been told, and node 1's reader still waits. -/
theorem page_mutual_exclusion_while_pending :
    ∃ s : State 2 Nat, (s.sys.nodes 0).lk.lock = EXCLUSIVE_LOCKED ∧
      (s.sys.nodes 0).lk.isGranting = false ∧ (s.sys.nodes 0).lk.isPending = true ∧
      (s.sys.nodes 1).lk.lock = 1 ∧
      ¬ ((s.sys.nodes 1).lk.lock ≠ 0 ∧ (s.sys.nodes 1).lk.isGranting = false) := by
  have run : Run (step ("t", 1)) (fun _ a => a.KeepsVictim) (State.init ⟨0, 0⟩ : State 2 Nat) _ :=
    Run.of_follow ([.lockTests 0 true, .lockTests 1 false, .lockStores 0 ⟨true, true⟩,
      .lockStores 1 ⟨false, true⟩] ++ [.protocol (.dirLock 0 ⟨true, .asking⟩),
      .readStorage 0 ⟨true, .answered (.storageFetch 0)⟩ 0,
      .protocol (.fetchDone 0 ⟨true, .pushing []⟩), .protocol (.dirLock 1 ⟨false, .asking⟩),
      .protocol (.pending 0 ⟨true, some 1⟩), .protocol (.pendingFinish 0 ⟨0, some 1⟩)].map
        Action.transfer) rfl
  refine ⟨_, ?_, ?_, ?_, ?_, fun h1 =>
    page_mutual_exclusion (by decide) run 0 1 (by decide) ⟨⟨?_, ?_⟩, h1⟩⟩ <;> rfl

/-- Node 0 holds the page lazily and starts to evict it; node 1 asks for it, and the Pending handler
takes it out of the buffer. The eviction unlocks the handler's mutex and ends, a first thread calls
`LockExclusive` and passes its tests, and the handler unlocks that thread's mutex. Node 1 gets the
page for reading, and a second thread of node 0 gets it for reading from there. -/
def lostVictimRun : List (Action 2 Nat) :=
  let call : PushCall 2 Nat := ⟨0, 1, .pending ⟨2, some 1⟩, false, 1, ⟨0, 0⟩, .entering⟩
  let back : PushCall 2 Nat :=
    ⟨1, 0, .notify 0 ⟨false, .notifying 1⟩, false, 1, ⟨0, 0⟩, .entering⟩
  [.protocol (.lock 0 true), .protocol (.dirLock 0 ⟨true, .asking⟩),
    .readStorage 0 ⟨true, .answered (.storageFetch 0)⟩ 0,
    .protocol (.fetchDone 0 ⟨true, .pushing []⟩), .protocol (.release 0 true),
    .protocol (.releasePush 0 ⟨true, 0, none⟩), .protocol (.releaseFinish 0 ⟨true, 0, some false⟩),
    .protocol (.beginEvict 0), .protocol (.lock 1 false), .protocol (.dirLock 1 ⟨false, .asking⟩),
    .protocol (.pending 0 ⟨true, some 1⟩), .startPush 0 (.pending ⟨2, some 1⟩) false,
    .pushWait call, .pushSend { call with wait := .done }, .protocol (.evictLost 0),
    .protocol (.endEvict 0)].map Action.transfer ++
  .lockTests 0 true ::
  [.protocol (.dirUnlock 0 ⟨false, false⟩), .protocol (.unlockReturn 0 ⟨false, true⟩),
    .pushArrive 1 ⟨0, 0⟩, .protocol (.pushNotify 1), .protocol (.lockSuccess 1 ⟨false, false, []⟩),
    .protocol (.gotLock 1 ⟨false, .answered .waitLockRelease⟩),
    .protocol (.takePushList 1 ⟨false, .granted⟩), .protocol (.fetchDone 1 ⟨false, .pushing []⟩),
    .protocol (.lock 0 false), .protocol (.dirLock 0 ⟨false, .asking⟩),
    .startPush 1 (.notify 0 ⟨false, .notifying 1⟩) false, .pushWait back,
    .pushSend { back with wait := .done }, .pushArrive 0 ⟨0, 0⟩, .protocol (.pushNotify 0),
    .protocol (.gotPush 0 ⟨false, .answered (.pushFrom 1)⟩)].map Action.transfer

/-- The first thread of `lostVictimRun` stores `EXCLUSIVE_LOCKED` while the second one is about to
call `LockRemoteOK`, which takes the reader's grant for an exclusive one. Node 1 still reads. -/
theorem page_mutual_exclusion_lost :
    ∃ s : State 2 Nat, Run (step ("t", 1)) (fun _ _ => True) (State.init ⟨0, 0⟩) s ∧
      (s.sys.nodes 0).lk.lock = EXCLUSIVE_LOCKED ∧ (s.sys.nodes 0).lk.isGranting = false ∧
      (s.sys.nodes 1).lk.lock = 1 ∧ (s.sys.nodes 1).lk.isGranting = false := by
  obtain ⟨s, run, hs⟩ := Run.of_reaches (step ("t", 1)) (fun _ _ => True)
    (lostVictimRun ++ [.lockStores 0 ⟨true, true⟩,
      .transfer (.protocol (.fetchDone 0 ⟨false, .pushing []⟩))]) (State.init ⟨0, 0⟩ : State 2 Nat)
    (fun s => decide ((s.sys.nodes 0).lk.lock = EXCLUSIVE_LOCKED ∧
      (s.sys.nodes 0).lk.isGranting = false ∧ (s.sys.nodes 1).lk.lock = 1 ∧
      (s.sys.nodes 1).lk.isGranting = false)) (by decide +kernel)
  exact ⟨s, run, of_decide_eq_true hs⟩

end Runs

end LockCalls
