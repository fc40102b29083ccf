import HybridCloud.GPLM.Proofs.DirectoryMutex
import HybridCloud.GPLM.Proofs.DirectoryRuns
import HybridCloud.LazyRelease.Proofs.MutualExclusion

/-!
# Who holds the mutexes

A thread holds the mutex of the local lock across several steps between `tryUnlock*` and the end of
a release, between `Pending` and the end of its handler, and during a call of `LRPAnyUnLock`. As
long as no eviction loses its victim, the mutex is taken exactly while one thread is in such a
window (`MutexInv`). The mutex of the directory lock is taken between steps only while a lock call
is in its `NotifyPushPage` (`DirMutexInv`).
-/

namespace LazyRelease

open GPLM Outcome Counting

variable {N : Nat} {α : Type} {s s' : State N α} {n : NodeId N} {nd : Node N α}

/-- The threads of the node that hold the mutex across steps. -/
def Node.windows (nd : Node N α) : Nat :=
  nd.releases.length + nd.handlers.length + nd.unlocks.length

/-- The mutex is taken exactly by the one thread that is in a window, and every unlock so far was by
a thread that held it. -/
structure MutexInv (nd : Node N α) : Prop where
  windows_le : nd.windows ≤ 1
  mutex : nd.lk.mutex = { held := nd.windows = 1, strays := 0 }

/-- The mutex discipline holds on all nodes. -/
def Disciplined (s : State N α) : Prop := ∀ n, MutexInv (s.nodes n)

namespace MutexInv

theorem windows_of_free (h : MutexInv nd) (free : nd.lk.mutex.held = false) : nd.windows = 0 := by
  have hle := h.windows_le
  have hne : nd.windows ≠ 1 := by simpa [h.mutex] using free
  omega

theorem releases_of_free (h : MutexInv nd) (free : nd.lk.mutex.held = false) :
    nd.releases = [] ∧ nd.handlers = [] ∧ nd.unlocks = [] := by
  have h0 := h.windows_of_free free
  simp only [Node.windows] at h0
  refine ⟨?_, ?_, ?_⟩ <;> exact List.length_eq_zero_iff.1 (by omega)

theorem of_release (h : MutexInv nd) {r : Release} (hr : r ∈ nd.releases) :
    nd.releases = [r] ∧ nd.handlers = [] ∧ nd.unlocks = [] := by
  have hpos := List.length_pos_of_mem hr
  have hle := h.windows_le
  simp only [Node.windows] at hle
  exact ⟨eq_singleton_of_mem hr (by omega), List.length_eq_zero_iff.1 (by omega),
    List.length_eq_zero_iff.1 (by omega)⟩

theorem of_handler (h : MutexInv nd) {p : PendingHandler N} (hp : p ∈ nd.handlers) :
    nd.releases = [] ∧ nd.handlers = [p] ∧ nd.unlocks = [] := by
  have hpos := List.length_pos_of_mem hp
  have hle := h.windows_le
  simp only [Node.windows] at hle
  exact ⟨List.length_eq_zero_iff.1 (by omega), eq_singleton_of_mem hp (by omega),
    List.length_eq_zero_iff.1 (by omega)⟩

theorem of_unlock (h : MutexInv nd) {u : UnlockCall} (hu : u ∈ nd.unlocks) :
    nd.releases = [] ∧ nd.handlers = [] ∧ nd.unlocks = [u] := by
  have hpos := List.length_pos_of_mem hu
  have hle := h.windows_le
  simp only [Node.windows] at hle
  exact ⟨List.length_eq_zero_iff.1 (by omega), List.length_eq_zero_iff.1 (by omega),
    eq_singleton_of_mem hu (by omega)⟩

end MutexInv

/-- What a step does to the mutex of one node. A step that needs the mutex free and leaves it so is
one that keeps it. -/
inductive MutexMove (nd nd' : Node N α) : Prop where
  | keep (mutex : nd'.lk.mutex = nd.lk.mutex) (windows : nd'.windows = nd.windows)
      (lk : nd.lk.mutex.held = true → nd.windows = 0 → nd'.lk = nd.lk)
  | enter (free : nd.lk.mutex.held = false)
      (mutex : nd'.lk.mutex = { nd.lk.mutex with held := true })
      (windows : nd'.windows = nd.windows + 1)
  | exit (mutex : nd'.lk.mutex = nd.lk.mutex.unlock) (windows : nd'.windows + 1 = nd.windows)

namespace MutexMove

variable {nd' : Node N α}

theorem of_lk (hlk : nd'.lk = nd.lk) (hw : nd'.windows = nd.windows) : MutexMove nd nd' :=
  .keep (congrArg _ hlk) hw fun _ _ => hlk

theorem of_free (free : nd.lk.mutex.held = false) (hm : nd'.lk.mutex = nd.lk.mutex)
    (hw : nd'.windows = nd.windows) : MutexMove nd nd' :=
  .keep hm hw fun held => absurd held (by simp [free])

theorem setNode (h : MutexMove (s.nodes n) nd) (k : NodeId N) :
    MutexMove (s.nodes k) ((s.setNode n nd).nodes k) :=
  forall_setNode (P := fun k nd => MutexMove (s.nodes k) nd) (fun _ => .of_lk rfl rfl) h k

theorem setNode_pushed {d : NodeId N} {page : Page α} (h : MutexMove (s.nodes n) nd)
    (k : NodeId N) : MutexMove (s.nodes k) (((s.pushed d page).setNode n nd).nodes k) := by
  have hpushed : MutexMove (s.nodes d)
      { s.nodes d with pushes := (s.nodes d).pushes ++ [page] } := .of_lk rfl rfl
  exact forall_setNode (P := fun k nd => MutexMove (s.nodes k) nd) hpushed.setNode h k

theorem setNode_sent {m : NodeId N} {dest : Option (NodeId N)} (h : MutexMove (s.nodes n) nd)
    (k : NodeId N) : MutexMove (s.nodes k) (((s.sent m dest).setNode n nd).nodes k) :=
  forall_setNode (P := fun k nd => MutexMove (s.nodes k) nd)
    (forall_sent (P := fun k nd => MutexMove (s.nodes k) nd) (fun _ => .of_lk rfl rfl)
      fun _ _ _ _ => .of_lk rfl rfl) h k

theorem afterDir {d : Directory N} {msgs : List (DirMsg N)} (h : MutexMove (s.nodes n) nd)
    (k : NodeId N) : MutexMove (s.nodes k) ((s.afterDir d msgs n nd).nodes k) := by
  cases h.setNode k with
  | keep mutex windows lk => exact .keep mutex windows lk
  | enter free mutex windows => exact .enter free mutex windows
  | exit mutex windows => exact .exit mutex windows

end MutexMove

theorem MutexInv.move {nd' : Node N α} (h : MutexInv nd) (move : MutexMove nd nd') :
    MutexInv nd' := by
  have hle := h.windows_le
  cases move with
  | keep mutex windows => exact ⟨windows ▸ hle, by rw [mutex, windows]; exact h.mutex⟩
  | enter free mutex windows =>
    have h0 := h.windows_of_free free
    exact ⟨by omega, by simp [mutex, windows, h0, h.mutex]⟩
  | exit mutex windows =>
    have h1 : nd.windows = 1 := by omega
    have h0 : nd'.windows = 0 := by omega
    exact ⟨by omega, by simp [mutex, h.mutex, h0, h1, Mutex.unlock]⟩

theorem unlock_mutex (r : Release) (b : Bool) (lk : LRLocalPageLock N) :
    (r.unlock b lk).mutex = lk.mutex := by
  cases hx : r.x <;> cases b <;>
    simp [Release.unlock, hx, unlockExclusive_eq, LRLocalPageLock.unlockShared, apply_ite]

theorem pendingCase_mutex {lk lk' : LRLocalPageLock N} {x : Bool} {k : Nat}
    (h : lk.PendingCase x lk' k) : lk'.mutex = { lk.mutex with held := true } := by
  cases h <;> rfl

variable {a : Action N α}

/-- What a step does to the mutex of a node. -/
theorem mutexMove_step [DecidableEq α] (ha : ∀ n, a ≠ .evictLost n) (hs : Step s a s')
    (k : NodeId N) : MutexMove (s.nodes k) (s'.nodes k) := by
  cases hs with
  | lockLocalS quiet | lockAskS quiet | lockLocalX quiet | lockAskX quiet | beginEvict quiet =>
    refine MutexMove.setNode ?_ k
    exact .of_free quiet.free rfl rfl
  | notifyPush | readStorage | write | writeUnlogged | pushArrive | dirEvict | evictReplace =>
    refine MutexMove.setNode ?_ k
    exact .of_lk rfl rfl
  | gotPush _ _ free | gotLock _ _ free | takePushList _ _ free | fetchDone _ _ _ free
  | pushNotify _ free | lockSuccess _ free | evictNone _ free | evictAsk _ free | evictDone _ free
  | endEvict _ free =>
    refine MutexMove.setNode ?_ k
    exact .of_free free rfl rfl
  | dirLock =>
    refine MutexMove.afterDir ?_ k
    exact .of_lk rfl rfl
  | pushNext =>
    refine MutexMove.setNode_pushed ?_ k
    exact .of_lk rfl rfl
  | releaseS _ free | releaseX _ free =>
    refine MutexMove.setNode (.enter free rfl ?_) k
    simp only [Node.windows, List.length_cons]
    omega
  | releaseKeep mem =>
    refine MutexMove.setNode ?_ k
    refine .of_lk rfl ?_
    have := length_erase_add mem
    simp only [Node.windows, List.length_cons]
    omega
  | releasePush mem | pendingGive mem =>
    refine MutexMove.setNode_sent ?_ k
    refine .of_lk rfl ?_
    have := length_erase_add mem
    simp only [Node.windows, List.length_cons]
    omega
  | @releaseEnd n r b mem =>
    refine MutexMove.setNode (.exit ?_ ?_) k
    · rw [← unlock_mutex r b (s.nodes n).lk]
      rfl
    · have := length_erase_add mem
      simp only [Node.windows]
      omega
  | @releaseUnlock n r b mem =>
    have hpos := List.length_pos_of_mem mem
    refine MutexMove.setNode (.keep (unlock_mutex r b _) ?_ fun _ h0 => ?_) k
    · have := length_erase_add mem
      simp only [Node.windows, List.length_cons]
      omega
    · simp only [Node.windows] at h0
      omega
  | pending _ _ free _ case =>
    refine MutexMove.setNode (.enter free (pendingCase_mutex case) ?_) k
    simp only [Node.windows, List.length_cons]
    omega
  | pendingKeep mem | unlockReturn mem =>
    refine MutexMove.setNode (.exit rfl ?_) k
    have := length_erase_add mem
    simp only [Node.windows]
    omega
  | dirUnlock mem =>
    refine MutexMove.afterDir ?_ k
    refine .of_lk rfl ?_
    have := length_erase_add mem
    simp only [Node.windows, List.length_cons]
    omega
  | @evictLost n => exact absurd rfl (ha n)

theorem Disciplined.step [DecidableEq α] (h : Disciplined s) (ha : ∀ n, a ≠ .evictLost n)
    (hs : Step s a s') : Disciplined s' :=
  fun k => (h k).move (mutexMove_step ha hs k)

theorem disciplined_init (base : Page α) : Disciplined (State.init base : State N α) :=
  fun _ => ⟨by simp [State.init, Node.init, Node.windows], rfl⟩

/-- No eviction loses its victim. -/
def Action.KeepsVictim (a : Action N α) : Prop := ∀ n, a ≠ .evictLost n

instance : (a : Action N α) → Decidable a.KeepsVictim
  | .evictLost n => .isFalse fun h => h n rfl
  | .lock .. | .dirLock .. | .notifyPush .. | .readStorage .. | .gotPush .. | .gotLock ..
  | .takePushList .. | .pushNext .. | .fetchDone .. | .write .. | .writeUnlogged .. | .release ..
  | .releasePush .. | .releaseFinish .. | .pending .. | .pendingFinish .. | .dirUnlock ..
  | .unlockReturn .. | .pushArrive .. | .pushNotify .. | .lockSuccess .. | .beginEvict ..
  | .evictCheck .. | .dirEvict .. | .evictReplace .. | .evictDone .. | .endEvict .. =>
    .isTrue fun _ => nofun

variable {allowed : State N α → Action N α → Prop} {base : Page α}

theorem disciplined_of_run [DecidableEq α] (hallowed : ∀ s a, allowed s a → a.KeepsVictim)
    (run : Run State.step allowed (State.init base) s) : Disciplined s :=
  run.invariant (disciplined_init base) fun h ok taken =>
    h.step (hallowed _ _ ok) (step_cases taken)

/-- The fetch's lock call is in its `NotifyPushPage`. -/
def Fetch.notifies (f : Fetch N) : Bool :=
  match f.stage with
  | .notifying _ => true
  | _ => false

/-- The fetches for which the directory notifies. -/
def Node.notifying (nd : Node N α) : Nat := nd.fetches.countP Fetch.notifies

/-- Those of all nodes. -/
def State.notifying (s : State N α) : Nat := ∑ n, (s.nodes n).notifying

/-- The mutex of the directory lock is taken exactly by the one lock call that is in its
`NotifyPushPage`, and every unlock of it so far was by a call that held it. -/
structure DirMutexInv (s : State N α) : Prop where
  notifying_le : s.notifying ≤ 1
  gl : s.dir.gl.mutex = { held := s.notifying = 1, strays := 0 }
  valid_free : s.dir.valid.mutex.held = false

theorem notifying_setNode (s : State N α) (n : NodeId N) (nd : Node N α) :
    (s.setNode n nd).notifying + (s.nodes n).notifying = s.notifying + nd.notifying :=
  sum_update_add Node.notifying s.nodes n nd

theorem notifying_setNode_eq (h : nd.notifying = (s.nodes n).notifying) :
    (s.setNode n nd).notifying = s.notifying := by
  have := notifying_setNode s n nd
  omega

theorem notifying_afterDir (s : State N α) (d : Directory N) (msgs : List (DirMsg N))
    (n : NodeId N) (nd : Node N α) :
    (s.afterDir d msgs n nd).notifying = (s.setNode n nd).notifying := rfl

theorem notifying_pushed (s : State N α) (d : NodeId N) (page : Page α) :
    (s.pushed d page).notifying = s.notifying := notifying_setNode_eq rfl

theorem notifying_sent (s : State N α) (n : NodeId N) (dest : Option (NodeId N)) :
    (s.sent n dest).notifying = s.notifying := by
  unfold State.sent
  split
  · exact notifying_pushed _ _ _
  · rfl

variable {f : Fetch N}

theorem notifying_setStage (stage : FetchStage N) (mem : f ∈ nd.fetches) (hf : f.notifies = false)
    (hstage : Fetch.notifies ⟨f.x, stage⟩ = false) :
    (nd.setStage f stage).notifying = nd.notifying :=
  countP_replace mem (hstage.trans hf.symm)

theorem notifying_setStage_notifying {m : NodeId N} (mem : f ∈ nd.fetches)
    (hf : f.notifies = false) : (nd.setStage f (.notifying m)).notifying = nd.notifying + 1 := by
  have herase := countP_erase_add Fetch.notifies mem
  simp only [hf, Bool.false_eq_true, if_false] at herase
  simp only [Node.notifying, Node.setStage, List.countP_cons, ← herase]
  rfl

variable {stage : FetchStage N}

theorem notifies_of_stage (h : f.stage = stage) : f.notifies = Fetch.notifies ⟨f.x, stage⟩ := by
  simp only [Fetch.notifies, h]

namespace DirMutexInv

section

variable (h : DirMutexInv s)
include h

theorem congr (hdir : s'.dir = s.dir) (hnot : s'.notifying = s.notifying) :
    DirMutexInv s' :=
  ⟨hnot ▸ h.notifying_le, by rw [hdir, hnot]; exact h.gl, by rw [hdir]; exact h.valid_free⟩

theorem notifying_of_free (free : s.dir.gl.mutex.held = false) :
    s.notifying = 0 := by
  have hle := h.notifying_le
  have hne : s.notifying ≠ 1 := by simpa [h.gl] using free
  omega

theorem call (hgl : s'.dir.gl.mutex = s.dir.gl.mutex)
    (hv : s'.dir.valid.mutex.held = false) (hnot : s'.notifying = s.notifying) :
    DirMutexInv s' :=
  ⟨hnot ▸ h.notifying_le, by rw [hgl, hnot]; exact h.gl, hv⟩

theorem dirLock {d : Directory N} {msgs : List (DirMsg N)}
    {reply : LockReply N} (mem : f ∈ (s.nodes n).fetches) (hf : f.notifies = false)
    (free : s.dir.gl.mutex.held = false)
    (hgl : d.gl.mutex = AbsDirectory.mutexAfter s.dir.gl.mutex reply)
    (hv : d.valid.mutex = s.dir.valid.mutex) :
    DirMutexInv (s.afterDir d msgs n ((s.nodes n).setStage f (State.stageAfter reply))) := by
  have h0 := h.notifying_of_free free
  cases reply with
  | pushFrom m =>
    have hset := notifying_setNode s n ((s.nodes n).setStage f (.notifying m))
    have hcount := notifying_setStage_notifying (m := m) mem hf
    have h1 : (s.afterDir d msgs n ((s.nodes n).setStage f (.notifying m))).notifying = 1 := by
      rw [notifying_afterDir]
      omega
    refine ⟨h1.le, ?_, by simpa [State.afterDir, hv] using h.valid_free⟩
    simp only [State.stageAfter, h1]
    simp [State.afterDir, hgl, AbsDirectory.mutexAfter, h.gl]
  | waitLockRelease | storageFetch lsn | localCopy =>
    exact h.call hgl (hv ▸ h.valid_free) (notifying_setNode_eq
      (notifying_setStage _ mem hf rfl))

theorem notifyPush {pushes : List (Page α)} (mem : f ∈ (s.nodes n).fetches)
    (hf : f.notifies = true) (hstage : Fetch.notifies ⟨f.x, stage⟩ = false) :
    DirMutexInv { s.setNode n { (s.nodes n).setStage f stage with pushes := pushes } with
      dir := s.dir.notifyPushPageDone } := by
  have hset := notifying_setNode s n { (s.nodes n).setStage f stage with pushes := pushes }
  have herase := countP_erase_add Fetch.notifies mem
  have hnd : ({ (s.nodes n).setStage f stage with pushes := pushes } : Node N α).notifying + 1 =
      (s.nodes n).notifying := by
    simp only [Node.notifying, Node.setStage, List.countP_cons, hstage, ← herase, hf, if_true,
      Bool.false_eq_true, if_false]
  have hle := h.notifying_le
  have h1 : s.notifying = 1 := by omega
  have h0 : (s.setNode n { (s.nodes n).setStage f stage with pushes := pushes }).notifying = 0 := by
    omega
  refine ⟨h0.le.trans (Nat.zero_le _), ?_, h.valid_free⟩
  have hgl : s.dir.gl.mutex = { held := true, strays := 0 } := by rw [h.gl, h1]; rfl
  show s.dir.gl.mutex.unlock = { held := decide ((s.setNode n _).notifying = 1), strays := 0 }
  rw [h0, hgl]
  rfl

theorem step [DecidableEq α] (hs : Step s a s') : DirMutexInv s' := by
  cases hs with
  | lockLocalS | lockLocalX | write | writeUnlogged | releaseS | releaseX | releaseKeep
  | releaseEnd | releaseUnlock | pending | pendingKeep | unlockReturn | pushArrive | pushNotify
  | lockSuccess | beginEvict | evictLost | evictNone | evictAsk | evictReplace | evictDone
  | endEvict => exact h.congr rfl (notifying_setNode_eq rfl)
  | lockAskS | lockAskX =>
    refine h.congr rfl (notifying_setNode_eq ?_)
    rfl
  | @dirLock n f d msgs reply mem stage call =>
    have hf : f.notifies = false := by rw [notifies_of_stage stage]; rfl
    cases hx : f.x with
    | true =>
      rw [hx, if_pos rfl] at call
      have free := Directory.lrpxLock_free call
      obtain ⟨hgl, hv⟩ := Directory.lrpxLock_mutex free h.valid_free call
      exact h.dirLock mem hf free hgl hv
    | false =>
      rw [hx, if_neg Bool.false_ne_true] at call
      have free := Directory.lrpsLock_free call
      obtain ⟨hgl, hv⟩ := Directory.lrpsLock_mutex free h.valid_free call
      exact h.dirLock mem hf free hgl hv
  | notifyPush mem stage => exact h.notifyPush mem (by rw [notifies_of_stage stage]; rfl) rfl
  | readStorage mem stage | gotPush mem stage | gotLock mem stage | takePushList mem stage =>
    exact h.congr rfl (notifying_setNode_eq
      (notifying_setStage _ mem (by rw [notifies_of_stage stage]; rfl) rfl))
  | @pushNext n d f pushList page mem stage _ ne =>
    refine h.congr rfl ((notifying_setNode_eq ?_).trans (notifying_pushed s d page))
    rw [pushed_nodes_self ne]
    exact notifying_setStage _ mem (by rw [notifies_of_stage stage]; rfl) rfl
  | fetchDone mem stage =>
    refine h.congr rfl (notifying_setNode_eq ?_)
    have herase := countP_erase_add Fetch.notifies mem
    rw [notifies_of_stage stage] at herase
    exact herase
  | @releasePush n r mem pushed pushes dest =>
    refine h.congr (sent_dir _ _ _) ((notifying_setNode_eq ?_).trans (notifying_sent _ _ _))
    rw [sent_nodes_self fun d hd => (dest d hd).1]
    rfl
  | @pendingGive n p mem gives dest buf =>
    refine h.congr (sent_dir _ _ _) ((notifying_setNode_eq ?_).trans (notifying_sent _ _ _))
    rw [sent_nodes_self dest]
    rfl
  | dirUnlock mem served call =>
    obtain ⟨hgl, hv⟩ := Directory.lrpAnyUnLock_mutex (Directory.lrpAnyUnLock_free call)
      h.valid_free call
    exact h.call hgl (hv ▸ h.valid_free) (notifying_setNode_eq rfl)
  | dirEvict mem call =>
    obtain ⟨hgl, hv, -⟩ := Directory.bufferReleaseUnlock_mutex
      (Directory.bufferReleaseUnlock_free call) h.valid_free call
    exact h.call hgl hv (notifying_setNode_eq rfl)

end

end DirMutexInv

theorem dirMutexInv_init (base : Page α) : DirMutexInv (State.init base : State N α) := by
  have h0 : (State.init base : State N α).notifying = 0 :=
    Finset.sum_eq_zero fun n _ => rfl
  exact ⟨by omega, by rw [h0]; rfl, rfl⟩

theorem dirMutexInv_of_run [DecidableEq α] (run : Run State.step allowed (State.init base) s) :
    DirMutexInv s :=
  run.invariant (dirMutexInv_init base) fun h _ taken => h.step (step_cases taken)

/-- Nobody has ever unlocked a mutex that it did not hold, and a mutex is taken only by the threads
that are between its lock and its unlock. -/
structure MutexesKept (s : State N α) : Prop where
  locals : Disciplined s
  dir : DirMutexInv s
  valid : s.dir.valid.mutex.strays = 0

/-- The condition under which a step unlocks only what it has locked: it is not that of an eviction
that lost its victim, nor a `BufferReleaseUnlock` that puts another node into the place of the newest
one. -/
def Action.RespectsMutexes (s : State N α) : Action N α → Prop
  | .evictLost _ => False
  | .dirEvict n _ => ¬ s.dir.Slips n
  | _ => True

instance (s : State N α) (a : Action N α) : Decidable (a.RespectsMutexes s) := by
  unfold Action.RespectsMutexes
  split <;> infer_instance

theorem valid_strays_step [DecidableEq α] (h : DirMutexInv s) (ha : a.RespectsMutexes s)
    (hs : Step s a s') : s'.dir.valid.mutex.strays = s.dir.valid.mutex.strays := by
  cases hs with
  | @dirLock n f d msgs reply mem stage call =>
    split at call
    · obtain ⟨-, hv⟩ := Directory.lrpxLock_mutex (Directory.lrpxLock_free call) h.valid_free call
      exact congrArg Mutex.strays hv
    · obtain ⟨-, hv⟩ := Directory.lrpsLock_mutex (Directory.lrpsLock_free call) h.valid_free call
      exact congrArg Mutex.strays hv
  | dirUnlock mem served call =>
    obtain ⟨-, hv⟩ := Directory.lrpAnyUnLock_mutex (Directory.lrpAnyUnLock_free call)
      h.valid_free call
    exact congrArg Mutex.strays hv
  | dirEvict mem call =>
    obtain ⟨-, -, -, hv⟩ := Directory.bufferReleaseUnlock_mutex
      (Directory.bufferReleaseUnlock_free call) h.valid_free call
    exact hv ha
  | releasePush | pendingGive =>
    exact congrArg (fun d : Directory N => d.valid.mutex.strays) (sent_dir _ _ _)
  | _ => rfl

theorem MutexesKept.step_iff [DecidableEq α] (h : MutexesKept s) (hs : Step s a s') :
    MutexesKept s' ↔ a.RespectsMutexes s := by
  constructor
  · intro h'
    cases hs with
    | @evictLost n =>
      have hm := (h'.locals n).mutex
      simp [State.setEvict, State.setNode, Mutex.strayUnlock] at hm
    | dirEvict mem call =>
      intro hslip
      obtain ⟨-, -, hv, -⟩ := Directory.bufferReleaseUnlock_mutex
        (Directory.bufferReleaseUnlock_free call) h.dir.valid_free call
      have hzero : s.dir.valid.mutex.strays + 1 = 0 := (hv hslip).symm.trans h'.valid
      omega
    | _ => trivial
  · intro ha
    refine ⟨h.locals.step ?_ hs, h.dir.step hs, (valid_strays_step h.dir ha hs).trans h.valid⟩
    rintro n rfl
    exact ha

theorem mutexesKept_init (base : Page α) : MutexesKept (State.init base : State N α) :=
  ⟨disciplined_init base, dirMutexInv_init base, rfl⟩

theorem mutexesKept_of_run [DecidableEq α]
    (run : Run State.step (fun s a => a.RespectsMutexes s) (State.init base) s) : MutexesKept s :=
  run.invariant (mutexesKept_init base) fun h ok taken => (h.step_iff (step_cases taken)).2 ok

/-- In every state of the directory, a call that completes ends with both mutexes of the directory
free, and it unlocks only what it holds unless it is a `BufferReleaseUnlock` that finds another newest
node. In every run whose steps all meet `RespectsMutexes`, the three mutexes are in order, and they
stay in order in the next step exactly if it meets the condition, too. -/
theorem mutex_discipline [DecidableEq α] (base : Page α) :
    (∀ (d d' : Directory N) (op : DirOp N), d.valid.mutex.held = false → d.exec op = .next d' →
      d'.gl.mutex = { held := false, strays := d.gl.mutex.strays } ∧
      d'.valid.mutex.held = false ∧
      (d'.valid.mutex.strays = d.valid.mutex.strays ↔ ¬ d.DoubleUnlocks op)) ∧
    (∀ s : State N α, Run State.step (fun s a => a.RespectsMutexes s) (State.init base) s →
      MutexesKept s ∧
      ∀ a s', s.step a = .next s' → (MutexesKept s' ↔ a.RespectsMutexes s)) := by
  refine ⟨fun d d' op hv h => Directory.exec_mutexes hv h, fun s run => ?_⟩
  have h := mutexesKept_of_run run
  exact ⟨h, fun a s' taken => h.step_iff (step_cases taken)⟩

/-- A reader's eviction while nobody else has the page keeps the mutexes in order. -/
theorem mutex_discipline_in_eviction :
    ∃ s : State 2 Nat, (s.nodes 0).evicts = [.agreed] ∧ MutexesKept s := by
  have run : Run State.step (fun s a => a.RespectsMutexes s) (State.init ⟨0, 0⟩ : State 2 Nat) _ :=
    Run.of_follow [.lock 0 false, .dirLock 0 ⟨false, .asking⟩,
      .readStorage 0 ⟨false, .answered (.storageFetch 0)⟩ 0, .fetchDone 0 ⟨false, .pushing []⟩,
      .release 0 false, .releasePush 0 ⟨false, 0, none⟩, .releaseFinish 0 ⟨false, 0, some false⟩,
      .beginEvict 0, .evictCheck 0, .dirEvict 0 0] rfl
  exact ⟨_, rfl, ((mutex_discipline ⟨0, 0⟩).2 _ run).1⟩

/-- Node 0 reads the page and starts to evict it; node 1 asks for it, and node 0's Pending handler
takes it out of the buffer before the eviction looks at the frame again. -/
def evictLostRun : List (Action 2 Nat) :=
  [.lock 0 false, .dirLock 0 ⟨false, .asking⟩,
    .readStorage 0 ⟨false, .answered (.storageFetch 0)⟩ 0, .fetchDone 0 ⟨false, .pushing []⟩,
    .release 0 false, .releasePush 0 ⟨false, 0, none⟩, .releaseFinish 0 ⟨false, 0, some false⟩,
    .beginEvict 0, .lock 1 true, .dirLock 1 ⟨true, .asking⟩, .pending 0 ⟨false, some 1⟩,
    .pendingFinish 0 ⟨1, some 1⟩, .evictLost 0]

/-- Two readers, the newest of which evicts the page: the validity table is unlocked twice. And an
eviction that loses its victim to a Pending handler unlocks the mutex that the handler holds during
its `LRPAnyUnLock`. -/
theorem mutexes_unlocked_unheld :
    (∃ d d' : Directory 3, Run Directory.exec (fun d op => op.Respects d) Directory.init d ∧
      d.valid.mutex = .free ∧ d.exec (.bufferReleaseUnlock 0 7) = .next d' ∧
      d'.valid.mutex.strays = 1) ∧
    (∃ s : State 2 Nat, Run State.step (fun _ _ => True) (State.init ⟨0, 0⟩) s ∧
      (s.nodes 0).unlocks = [⟨false, false⟩] ∧
      (s.nodes 0).lk.mutex = { held := false, strays := 1 }) := by
  constructor
  · have run : Run Directory.exec (fun d op => op.Respects d) (Directory.init : Directory 3) _ :=
      Run.of_follow [.lrpsLock 0, .lrpsLock 1] rfl
    exact ⟨_, _, run, rfl, rfl, rfl⟩
  · obtain ⟨s, run, hs⟩ := Run.of_reaches State.step (fun _ _ => True) evictLostRun
      (State.init ⟨0, 0⟩) (fun s => decide ((s.nodes 0).unlocks = [⟨false, false⟩] ∧
        (s.nodes 0).lk.mutex = { held := false, strays := 1 })) (by decide +kernel)
    exact ⟨s, run, of_decide_eq_true hs⟩

end LazyRelease
