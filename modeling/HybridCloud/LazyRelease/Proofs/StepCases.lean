import HybridCloud.LazyRelease.Proofs.LocalLockProofs
import HybridCloud.LazyRelease.Protocol

/-!
# What a step of the protocol can do

`Step s a s'` lists, action by action, what has to hold for action `a` to complete in state `s` and
which state it leads to. All invariants of the protocol are shown by cases on `Step`, so that the
code is unfolded only here.
-/

namespace LazyRelease

open GPLM Outcome LRLocalPageLock

variable {N : Nat} {α : Type}

/-- The system after a page was sent to node `d`. -/
def State.pushed (s : State N α) (d : NodeId N) (page : Page α) : State N α :=
  s.setNode d { s.nodes d with pushes := (s.nodes d).pushes ++ [page] }

/-- The system after node `n` pushed its page to a node that may not be set. -/
def State.sent (s : State N α) (n : NodeId N) (dest : Option (NodeId N)) : State N α :=
  match dest, (s.nodes n).buffer with
  | some d, some page => s.pushed d page
  | _, _ => s

/-- The local lock after a release whose push was `pushed`. -/
def Release.unlock (r : Release) (pushed : Bool) (lk : LRLocalPageLock N) : LRLocalPageLock N :=
  let lk := if pushed then { lk with destNodeId := none } else lk
  if r.x then lk.unlockExclusive else lk.unlockShared

/-- The local lock after the LockSuccess request `g`. -/
def LockSuccessRequest.notify (g : LockSuccessRequest N) (lk : LRLocalPageLock N) :
    LRLocalPageLock N :=
  { lk with successReturn := true, needWait := !g.isNewest, pushList := lk.pushList ++ g.destNodeIds }

/-- What a step can do, one case for each outcome. -/
inductive Step [DecidableEq α] (s : State N α) : Action N α → State N α → Prop where
  | lockLocalS {n : NodeId N} (quiet : (s.nodes n).lk.Quiet)
      (lt : (s.nodes n).lk.lock + 1 < EXCLUSIVE_LOCKED) (mode : (s.nodes n).lk.remoteMode ≠ .none)
      (buf : (s.nodes n).buffer.isSome = true) :
      Step s (.lock n false) (s.setNode n { s.nodes n with
        lk := { (s.nodes n).lk with lock := (s.nodes n).lk.lock + 1 }
        readers := (s.nodes n).readers + 1 })
  | lockAskS {n : NodeId N} (quiet : (s.nodes n).lk.Quiet)
      (lt : (s.nodes n).lk.lock + 1 < EXCLUSIVE_LOCKED) (mode : (s.nodes n).lk.remoteMode = .none) :
      Step s (.lock n false) (s.setNode n { s.nodes n with
        lk := { (s.nodes n).lk with lock := (s.nodes n).lk.lock + 1, isGranting := true }
        fetches := ⟨false, .asking⟩ :: (s.nodes n).fetches
        received := 0 })
  | lockLocalX {n : NodeId N} (quiet : (s.nodes n).lk.Quiet) (unused : (s.nodes n).lk.lock = 0)
      (mode : (s.nodes n).lk.remoteMode = .exclusive) (buf : (s.nodes n).buffer.isSome = true) :
      Step s (.lock n true) (s.setNode n { s.nodes n with
        lk := { (s.nodes n).lk with lock := EXCLUSIVE_LOCKED }
        writers := (s.nodes n).writers + 1 })
  | lockAskX {n : NodeId N} (quiet : (s.nodes n).lk.Quiet) (unused : (s.nodes n).lk.lock = 0)
      (mode : (s.nodes n).lk.remoteMode ≠ .exclusive) :
      Step s (.lock n true) (s.setNode n { s.nodes n with
        lk := { (s.nodes n).lk with lock := EXCLUSIVE_LOCKED, isGranting := true }
        fetches := ⟨true, .asking⟩ :: (s.nodes n).fetches
        received := 0 })
  | dirLock {n : NodeId N} {f : Fetch N} {d : Directory N} {msgs : List (DirMsg N)}
      {reply : LockReply N} (mem : f ∈ (s.nodes n).fetches) (stage : f.stage = .asking)
      (call : (if f.x then s.dir.lrpxLock n else s.dir.lrpsLock n) = .next (d, msgs, reply)) :
      Step s (.dirLock n f)
        (s.afterDir d msgs n ((s.nodes n).setStage f (State.stageAfter reply)))
  | notifyPush {n m : NodeId N} {f : Fetch N} {page : Page α} (mem : f ∈ (s.nodes n).fetches)
      (stage : f.stage = .notifying m) (buf : (s.nodes m).buffer = some page) (ne : n ≠ m) :
      Step s (.notifyPush n f) { s.setNode n
        { (s.nodes n).setStage f (.answered (.pushFrom m)) with
          pushes := (s.nodes n).pushes ++ [page] } with
        dir := s.dir.notifyPushPageDone }
  | readStorage {n : NodeId N} {f : Fetch N} {k lsn : Nat} (mem : f ∈ (s.nodes n).fetches)
      (stage : f.stage = .answered (.storageFetch lsn)) (le : k ≤ s.log.length)
      (fresh : lsn ≤ (replay s.base (s.log.take k)).llsn) (buf : (s.nodes n).buffer = none) :
      Step s (.readStorage n f k) (s.setNode n { (s.nodes n).setStage f (.pushing []) with
        buffer := some (replay s.base (s.log.take k)) })
  | gotPush {n m : NodeId N} {f : Fetch N} (mem : f ∈ (s.nodes n).fetches)
      (stage : f.stage = .answered (.pushFrom m)) (free : (s.nodes n).lk.mutex.held = false)
      (update : (s.nodes n).lk.updateSuccess = true) :
      Step s (.gotPush n f) (s.setNode n { (s.nodes n).setStage f (.pushing []) with
        lk := { (s.nodes n).lk with updateSuccess := false } })
  | gotLock {n : NodeId N} {f : Fetch N} (mem : f ∈ (s.nodes n).fetches)
      (stage : f.stage = .answered .waitLockRelease) (free : (s.nodes n).lk.mutex.held = false)
      (success : (s.nodes n).lk.successReturn = true)
      (update : (s.nodes n).lk.updateSuccess = (s.nodes n).lk.needWait) :
      Step s (.gotLock n f) (s.setNode n { (s.nodes n).setStage f .granted with
        lk := { (s.nodes n).lk with
          updateSuccess := false, needWait := false, successReturn := false } })
  | takePushList {n : NodeId N} {f : Fetch N} (mem : f ∈ (s.nodes n).fetches)
      (stage : f.stage = .granted) (free : (s.nodes n).lk.mutex.held = false)
      (reader : f.x = true → (s.nodes n).lk.pushList = []) :
      Step s (.takePushList n f) (s.setNode n
        { (s.nodes n).setStage f (.pushing (s.nodes n).lk.pushList) with
          lk := { (s.nodes n).lk with pushList := [] } })
  | pushNext {n d : NodeId N} {f : Fetch N} {pushList : List (NodeId N)} {page : Page α}
      (mem : f ∈ (s.nodes n).fetches) (stage : f.stage = .pushing (pushList ++ [d]))
      (buf : (s.nodes n).buffer = some page) (ne : d ≠ n) :
      Step s (.pushNext n f)
        ((s.pushed d page).setNode n ((s.nodes n).setStage f (.pushing pushList)))
  | fetchDone {n : NodeId N} {f : Fetch N} (mem : f ∈ (s.nodes n).fetches)
      (stage : f.stage = .pushing []) (buf : (s.nodes n).buffer.isSome = true)
      (free : (s.nodes n).lk.mutex.held = false) (granting : (s.nodes n).lk.isGranting = true) :
      Step s (.fetchDone n f) (s.setNode n { s.nodes n with
        lk := { (s.nodes n).lk with
          remoteMode := if (s.nodes n).lk.lock = EXCLUSIVE_LOCKED then .exclusive else .shared
          isGranting := false
          isReleased := false }
        fetches := (s.nodes n).fetches.erase f
        readers := if f.x then (s.nodes n).readers else (s.nodes n).readers + 1
        writers := if f.x then (s.nodes n).writers + 1 else (s.nodes n).writers })
  | write {n : NodeId N} {f : α → α} {llsn : Nat} {page : Page α} (writer : 0 < (s.nodes n).writers)
      (buf : (s.nodes n).buffer = some page) (lt : page.llsn < llsn) :
      Step s (.write n f llsn)
        { s.setNode n { s.nodes n with buffer := some ⟨llsn, f page.data⟩ } with
          log := s.log ++ [(llsn, f)], cur := ⟨llsn, f page.data⟩ }
  | writeUnlogged {n : NodeId N} {f : α → α} {page : Page α} (writer : 0 < (s.nodes n).writers)
      (buf : (s.nodes n).buffer = some page) :
      Step s (.writeUnlogged n f)
        { s.setNode n { s.nodes n with buffer := some ⟨page.llsn, f page.data⟩ } with
          cur := ⟨page.llsn, f page.data⟩ }
  | releaseS {n : NodeId N} (reader : 0 < (s.nodes n).readers)
      (free : (s.nodes n).lk.mutex.held = false) (pos : 0 < (s.nodes n).lk.lock)
      (not_x : (s.nodes n).lk.lock ≠ EXCLUSIVE_LOCKED)
      (not_granting : (s.nodes n).lk.isGranting = false) :
      Step s (.release n false) (s.setNode n { s.nodes n with
        lk := { (s.nodes n).lk.takeMtx with
          isReleased := (s.nodes n).lk.isReleased || (s.nodes n).lk.sharedUnlockType ≠ 0 }
        readers := (s.nodes n).readers - 1
        releases := ⟨false, (s.nodes n).lk.sharedUnlockType, none⟩ :: (s.nodes n).releases })
  | releaseX {n : NodeId N} (writer : 0 < (s.nodes n).writers)
      (free : (s.nodes n).lk.mutex.held = false) (mode : (s.nodes n).lk.remoteMode = .exclusive)
      (lock : (s.nodes n).lk.lock = EXCLUSIVE_LOCKED)
      (not_granting : (s.nodes n).lk.isGranting = false) :
      Step s (.release n true) (s.setNode n { s.nodes n with
        lk := { (s.nodes n).lk.takeMtx with
          isReleased := (s.nodes n).lk.isReleased || (s.nodes n).lk.isPending }
        writers := (s.nodes n).writers - 1
        releases := ⟨true, if (s.nodes n).lk.isPending then 2 else 0, none⟩ ::
          (s.nodes n).releases })
  | releaseKeep {n : NodeId N} {r : Release} (mem : r ∈ (s.nodes n).releases)
      (pushed : r.pushed = none) (x : r.x = true) (keeps : r.unlockRemote = 0)
      (dest : (s.nodes n).lk.destNodeId = none) :
      Step s (.releasePush n r) (s.setNode n { s.nodes n with
        releases := { r with pushed := some false } :: (s.nodes n).releases.erase r })
  | releasePush {n : NodeId N} {r : Release} (mem : r ∈ (s.nodes n).releases)
      (pushed : r.pushed = none) (pushes : ¬ (r.x = true ∧ r.unlockRemote = 0))
      (dest : ∀ d, (s.nodes n).lk.destNodeId = some d →
        d ≠ n ∧ (s.nodes n).buffer.isSome = true) :
      Step s (.releasePush n r)
        ((s.sent n (s.nodes n).lk.destNodeId).setNode n { s.nodes n with
          releases := { r with pushed := some (s.nodes n).lk.destNodeId.isSome } ::
            (s.nodes n).releases.erase r })
  | releaseEnd {n : NodeId N} {r : Release} {b : Bool} (mem : r ∈ (s.nodes n).releases)
      (pushed : r.pushed = some b) (keeps : r.unlockRemote = 0) :
      Step s (.releaseFinish n r) (s.setNode n { s.nodes n with
        lk := (r.unlock b (s.nodes n).lk).unlockMtx
        releases := (s.nodes n).releases.erase r })
  | releaseUnlock {n : NodeId N} {r : Release} {b : Bool} (mem : r ∈ (s.nodes n).releases)
      (pushed : r.pushed = some b) (gives : r.unlockRemote ≠ 0) :
      Step s (.releaseFinish n r) (s.setNode n { s.nodes n with
        lk := r.unlock b (s.nodes n).lk
        releases := (s.nodes n).releases.erase r
        unlocks := ⟨true, false⟩ :: (s.nodes n).unlocks })
  | pending {n : NodeId N} {p : PendingRequest N} {lk : LRLocalPageLock N} {k : Nat}
      (mem : p ∈ (s.nodes n).pendings) (ne : p.dest ≠ some n)
      (free : (s.nodes n).lk.mutex.held = false) (not_pending : (s.nodes n).lk.isPending = false)
      (case : (s.nodes n).lk.PendingCase p.xpending lk k)
      (dest : (s.nodes n).lk.destNodeId = none) :
      Step s (.pending n p) (s.setNode n { s.nodes n with
        lk := lk
        pendings := (s.nodes n).pendings.erase p
        handlers := ⟨k, p.dest⟩ :: (s.nodes n).handlers })
  | pendingGive {n : NodeId N} {h : PendingHandler N} (mem : h ∈ (s.nodes n).handlers)
      (gives : 0 < h.unlockRemote) (dest : ∀ d, h.dest = some d → d ≠ n)
      (buf : (s.nodes n).buffer.isSome = true) :
      Step s (.pendingFinish n h) ((s.sent n h.dest).setNode n { s.nodes n with
        buffer := none
        handlers := (s.nodes n).handlers.erase h
        unlocks := ⟨false, false⟩ :: (s.nodes n).unlocks })
  | pendingKeep {n : NodeId N} {h : PendingHandler N} (mem : h ∈ (s.nodes n).handlers)
      (keeps : h.unlockRemote = 0) :
      Step s (.pendingFinish n h) (s.setNode n { s.nodes n with
        lk := { (s.nodes n).lk with destNodeId :=
          if h.dest.isSome then h.dest else (s.nodes n).lk.destNodeId }.unlockMtx
        handlers := (s.nodes n).handlers.erase h })
  | dirUnlock {n : NodeId N} {u : UnlockCall} {d : Directory N} {msgs : List (DirMsg N)}
      (mem : u ∈ (s.nodes n).unlocks) (served : u.served = false)
      (call : s.dir.lrpAnyUnLock n = .next (d, msgs)) :
      Step s (.dirUnlock n u) (s.afterDir d msgs n { s.nodes n with
        unlocks := { u with served := true } :: (s.nodes n).unlocks.erase u })
  | unlockReturn {n : NodeId N} {u : UnlockCall} (mem : u ∈ (s.nodes n).unlocks)
      (served : u.served = true) (buf : u.fromRelease = true → (s.nodes n).buffer.isSome = true) :
      Step s (.unlockReturn n u) (s.setNode n { s.nodes n with
        lk := (s.nodes n).lk.unlockMtx
        buffer := if u.fromRelease then none else (s.nodes n).buffer
        unlocks := (s.nodes n).unlocks.erase u })
  | pushArrive {n : NodeId N} {page : Page α} (mem : page ∈ (s.nodes n).pushes)
      (buf : (s.nodes n).buffer = none) :
      Step s (.pushArrive n page) (s.setNode n { s.nodes n with
        buffer := some page
        pushes := (s.nodes n).pushes.erase page
        arrived := (s.nodes n).arrived + 1
        received := (s.nodes n).received + 1 })
  | pushNotify {n : NodeId N} (pos : 0 < (s.nodes n).arrived)
      (free : (s.nodes n).lk.mutex.held = false) (granting : (s.nodes n).lk.isGranting = true) :
      Step s (.pushNotify n) (s.setNode n { s.nodes n with
        lk := { (s.nodes n).lk with updateSuccess := true }
        arrived := (s.nodes n).arrived - 1 })
  | lockSuccess {n : NodeId N} {g : LockSuccessRequest N} (mem : g ∈ (s.nodes n).grants)
      (free : (s.nodes n).lk.mutex.held = false) (granting : (s.nodes n).lk.isGranting = true)
      (ne : n ∉ g.destNodeIds) :
      Step s (.lockSuccess n g) (s.setNode n { s.nodes n with
        lk := g.notify (s.nodes n).lk
        grants := (s.nodes n).grants.erase g })
  | beginEvict {n : NodeId N} (quiet : (s.nodes n).lk.Quiet) (unused : (s.nodes n).lk.lock = 0)
      (kept : (s.nodes n).lk.isReleased = false) :
      Step s (.beginEvict n) (s.setNode n { s.nodes n with
        lk := { (s.nodes n).lk with isEvicting := true }
        evicts := .chosen :: (s.nodes n).evicts })
  | evictLost {n : NodeId N} (mem : .chosen ∈ (s.nodes n).evicts)
      (buf : (s.nodes n).buffer = none) :
      Step s (.evictLost n) (s.setEvict n
        { (s.nodes n).lk with mutex := (s.nodes n).lk.mutex.strayUnlock } .chosen .ending)
  | evictNone {n : NodeId N} (mem : .chosen ∈ (s.nodes n).evicts)
      (free : (s.nodes n).lk.mutex.held = false) (mode : (s.nodes n).lk.remoteMode = .none) :
      Step s (.evictCheck n) (s.setEvict n (s.nodes n).lk .chosen .ending)
  | evictAsk {n : NodeId N} {page : Page α} (mem : .chosen ∈ (s.nodes n).evicts)
      (free : (s.nodes n).lk.mutex.held = false) (mode : (s.nodes n).lk.remoteMode ≠ .none)
      (buf : (s.nodes n).buffer = some page) :
      Step s (.evictCheck n) (s.setEvict n (s.nodes n).lk .chosen (.asking page.llsn))
  | dirEvict {n : NodeId N} {lsn : Nat} {d : Directory N} {agree : Bool}
      (mem : .asking lsn ∈ (s.nodes n).evicts)
      (call : s.dir.bufferReleaseUnlock n lsn = .next (d, agree)) :
      Step s (.dirEvict n lsn)
        { s.setEvict n (s.nodes n).lk (.asking lsn) (if agree then .agreed else .ending) with
          dir := d }
  | evictReplace {n : NodeId N} (mem : .agreed ∈ (s.nodes n).evicts)
      (buf : (s.nodes n).buffer.isSome = true) :
      Step s (.evictReplace n) (s.setNode n { s.nodes n with
        buffer := none, evicts := .replaced :: (s.nodes n).evicts.erase .agreed })
  | evictDone {n : NodeId N} (mem : .replaced ∈ (s.nodes n).evicts)
      (free : (s.nodes n).lk.mutex.held = false) :
      Step s (.evictDone n) (s.setEvict n
        { (s.nodes n).lk with remoteMode := .none, isReleased := true } .replaced .ending)
  | endEvict {n : NodeId N} (mem : .ending ∈ (s.nodes n).evicts)
      (free : (s.nodes n).lk.mutex.held = false) (evicting : (s.nodes n).lk.isEvicting = true) :
      Step s (.endEvict n) (s.setNode n { s.nodes n with
        lk := { (s.nodes n).lk with isEvicting := false }
        evicts := (s.nodes n).evicts.erase .ending })

variable {dest : Option (NodeId N)} {page : Page α} {d : NodeId N}

section Cases

variable {s s' : State N α} {n : NodeId N}

theorem push_next (h : s.push n d = .next s') :
    ∃ page, (s.nodes n).buffer = some page ∧ d ≠ n ∧ s' = s.pushed d page := by
  unfold State.push at h
  cases hb : (s.nodes n).buffer with
  | none => simp [hb] at h
  | some page =>
    simp only [hb, bind_eq_next, cassert_eq_next] at h
    obtain ⟨_, hne, heq⟩ := h
    exact ⟨page, rfl, hne, (next.inj heq).symm⟩

theorem pushTo_next (h : s.pushTo n dest = .next s') :
    (∀ d, dest = some d → d ≠ n ∧ (s.nodes n).buffer.isSome = true) ∧ s' = s.sent n dest := by
  cases dest with
  | none => exact ⟨nofun, (next.inj h).symm⟩
  | some d =>
    obtain ⟨page, hb, hne, rfl⟩ := push_next h
    refine ⟨fun d' hd => ?_, by simp [State.sent, hb]⟩
    obtain rfl := Option.some.inj hd
    exact ⟨hne, by simp [hb]⟩

theorem pushed_nodes_self (h : d ≠ n) : (s.pushed d page).nodes n = s.nodes n := by
  simp [State.pushed, State.setNode, Function.update, h.symm]

theorem sent_nodes_self (h : ∀ d, dest = some d → d ≠ n) : (s.sent n dest).nodes n = s.nodes n := by
  cases dest with
  | none => rfl
  | some d =>
    cases hb : (s.nodes n).buffer with
    | none => simp [State.sent, hb]
    | some page =>
      simp only [State.sent, hb]
      exact pushed_nodes_self (h d rfl)

variable [DecidableEq α]

theorem lock_cases {x : Bool} (h : s.lock n x = .next s') : Step s (.lock n x) s' := by
  cases x with
  | false =>
    simp only [State.lock, State.afterLock, Bool.false_eq_true, ite_false, bind_eq_next] at h
    obtain ⟨⟨lk, b⟩, hcall, h⟩ := h
    obtain ⟨hquiet, hlt, rfl, rfl⟩ := lockShared_next hcall
    have hg := hquiet.not_granting
    by_cases hm : (s.nodes n).lk.remoteMode = .none
    · simp only [hm, decide_true, ite_true, pure_def, next.injEq] at h
      subst h
      simpa [hm] using Step.lockAskS hquiet hlt hm
    · simp only [hm, decide_false, Bool.false_eq_true, ite_false, bind_eq_next, cassert_eq_next,
        pure_def, next.injEq] at h
      obtain ⟨_, hbuf, rfl⟩ := h
      simpa [hg] using Step.lockLocalS hquiet hlt hm hbuf
  | true =>
    simp only [State.lock, State.afterLock, ite_true, bind_eq_next] at h
    obtain ⟨⟨lk, b⟩, hcall, h⟩ := h
    obtain ⟨hquiet, h0, rfl, rfl⟩ := lockExclusive_next hcall
    have hg := hquiet.not_granting
    by_cases hm : (s.nodes n).lk.remoteMode = .exclusive
    · simp only [hm, ne_eq, not_true_eq_false, decide_false, Bool.false_eq_true, ite_false,
        bind_eq_next, cassert_eq_next, pure_def, next.injEq] at h
      obtain ⟨_, hbuf, rfl⟩ := h
      simpa [hg, hm] using Step.lockLocalX hquiet h0 hm hbuf
    · simp only [hm, ne_eq, not_false_eq_true, decide_true, ite_true, pure_def,
        next.injEq] at h
      subst h
      exact Step.lockAskX hquiet h0 hm

variable {f : Fetch N}

theorem dirLock_cases (h : s.dirLock n f = .next s') : Step s (.dirLock n f) s' := by
  simp only [State.dirLock, bind_eq_next, await_eq_next] at h
  obtain ⟨_, ⟨hmem, hstage⟩, h⟩ := h
  cases hx : f.x <;> simp only [hx, Bool.false_eq_true, ite_false, ite_true, bind_eq_next] at h <;>
    obtain ⟨⟨d, msgs, reply⟩, hcall, h⟩ := h <;>
    obtain rfl := next.inj h <;>
    exact .dirLock hmem hstage (by simpa [hx] using hcall)

theorem notifyPush_cases (h : s.notifyPush n f = .next s') : Step s (.notifyPush n f) s' := by
  simp only [State.notifyPush, bind_eq_next, await_eq_next] at h
  obtain ⟨_, hmem, h⟩ := h
  cases hstage : f.stage with
  | notifying m =>
    simp only [hstage, bind_eq_next, await_eq_next] at h
    obtain ⟨_, -, s₁, hpush, h⟩ := h
    obtain ⟨page, hbuf, hne, rfl⟩ := push_next hpush
    obtain rfl := next.inj h
    have := Step.notifyPush hmem hstage hbuf hne
    simpa [State.pushed, State.setNode, Node.setStage] using this
  | _ => simp [hstage] at h

theorem readStorage_cases {k : Nat} (h : s.readStorage n f k = .next s') :
    Step s (.readStorage n f k) s' := by
  simp only [State.readStorage, bind_eq_next, await_eq_next] at h
  obtain ⟨_, hmem, h⟩ := h
  split at h
  · rename_i lsn hstage
    simp only [bind_eq_next, await_eq_next, cassert_eq_next] at h
    obtain ⟨_, ⟨hle, hfresh⟩, _, hbuf, h⟩ := h
    obtain rfl := next.inj h
    exact .readStorage hmem hstage hle hfresh (by simpa using hbuf)
  · cases h

theorem gotPush_cases (h : s.gotPush n f = .next s') : Step s (.gotPush n f) s' := by
  simp only [State.gotPush, bind_eq_next, await_eq_next] at h
  obtain ⟨_, hmem, h⟩ := h
  split at h
  · rename_i m hstage
    simp only [bind_eq_next] at h
    obtain ⟨lk, hcall, h⟩ := h
    obtain ⟨hfree, -, hup, rfl⟩ := tryGetPushData_next hcall
    obtain rfl := next.inj h
    exact .gotPush hmem hstage hfree hup
  · cases h

theorem gotLock_cases (h : s.gotLock n f = .next s') : Step s (.gotLock n f) s' := by
  simp only [State.gotLock, bind_eq_next, await_eq_next] at h
  obtain ⟨_, ⟨hmem, hstage⟩, lk, hcall, h⟩ := h
  obtain ⟨hfree, -, hsucc, hup, rfl⟩ := tryRemoteLockSuccess_next hcall
  obtain rfl := next.inj h
  exact .gotLock hmem hstage hfree hsucc hup

theorem takePushList_cases (h : s.takePushList n f = .next s') : Step s (.takePushList n f) s' := by
  simp only [State.takePushList, bind_eq_next, await_eq_next, cassert_eq_next] at h
  obtain ⟨_, ⟨hmem, hstage⟩, ⟨lk, dests⟩, hcall, _, hx, h⟩ := h
  obtain ⟨hfree, rfl, rfl⟩ := getPushList_next hcall
  obtain rfl := next.inj h
  exact .takePushList hmem hstage hfree hx

theorem pushNext_cases (h : s.pushNext n f = .next s') : Step s (.pushNext n f) s' := by
  simp only [State.pushNext, bind_eq_next, await_eq_next] at h
  obtain ⟨_, hmem, h⟩ := h
  split at h
  · rename_i pushList hstage
    split at h
    · rename_i d hlast
      simp only [bind_eq_next] at h
      obtain ⟨s₁, hpush, h⟩ := h
      obtain ⟨page, hbuf, hne, rfl⟩ := push_next hpush
      obtain rfl := next.inj h
      rw [pushed_nodes_self hne]
      refine .pushNext hmem ?_ hbuf hne
      rw [hstage, List.dropLast_append_getLast? d hlast]
    · cases h
  · cases h

theorem fetchDone_cases (h : s.fetchDone n f = .next s') : Step s (.fetchDone n f) s' := by
  simp only [State.fetchDone, bind_eq_next, await_eq_next, cassert_eq_next] at h
  obtain ⟨_, ⟨hmem, hstage⟩, _, hbuf, lk, hcall, h⟩ := h
  obtain ⟨hfree, hg, rfl⟩ := lockRemoteOK_next hcall
  obtain rfl := next.inj h
  exact .fetchDone hmem hstage hbuf hfree hg

theorem write_cases {f : α → α} {llsn : Nat} (h : s.write n f llsn = .next s') :
    Step s (.write n f llsn) s' := by
  simp only [State.write, bind_eq_next, await_eq_next] at h
  obtain ⟨_, hw, h⟩ := h
  split at h
  · cases h
  · rename_i page hbuf
    simp only [bind_eq_next, await_eq_next] at h
    obtain ⟨_, hlt, h⟩ := h
    obtain rfl := next.inj h
    exact .write hw hbuf hlt

theorem writeUnlogged_cases {f : α → α} (h : s.writeUnlogged n f = .next s') :
    Step s (.writeUnlogged n f) s' := by
  simp only [State.writeUnlogged, bind_eq_next, await_eq_next] at h
  obtain ⟨_, hw, h⟩ := h
  split at h
  · cases h
  · rename_i page hbuf
    obtain rfl := next.inj h
    exact .writeUnlogged hw hbuf

theorem release_cases {x : Bool} (h : s.release n x = .next s') : Step s (.release n x) s' := by
  cases x with
  | false =>
    simp only [State.release, Bool.false_eq_true, ite_false, bind_eq_next, await_eq_next] at h
    obtain ⟨_, huse, ⟨lk, k⟩, hcall, h⟩ := h
    obtain rfl := next.inj h
    obtain ⟨hfree, hpos, hne, hg, rfl, rfl⟩ := tryUnlockShared_next hcall
    exact .releaseS huse hfree hpos hne hg
  | true =>
    simp only [State.release, ite_true, bind_eq_next, await_eq_next] at h
    obtain ⟨_, huse, ⟨lk, k⟩, hcall, h⟩ := h
    obtain rfl := next.inj h
    obtain ⟨hfree, hm, hl, hg, rfl, rfl⟩ := tryUnlockExclusive_next hcall
    exact .releaseX huse hfree hm hl hg

theorem releasePush_cases {r : Release} (h : s.releasePush n r = .next s') :
    Step s (.releasePush n r) s' := by
  simp only [State.releasePush, bind_eq_next, await_eq_next] at h
  obtain ⟨_, ⟨hmem, hpushed⟩, h⟩ := h
  split at h
  · rename_i hkeep
    simp only [bind_eq_next, cassert_eq_next] at h
    obtain ⟨_, hdest, h⟩ := h
    obtain rfl := next.inj h
    exact .releaseKeep hmem hpushed hkeep.1 hkeep.2 hdest
  · rename_i hpush
    simp only [bind_eq_next] at h
    obtain ⟨s₁, hcall, h⟩ := h
    obtain ⟨hdest, rfl⟩ := pushTo_next hcall
    obtain rfl := next.inj h
    rw [sent_nodes_self fun d hd => (hdest d hd).1]
    exact .releasePush hmem hpushed hpush hdest

theorem releaseFinish_cases {r : Release} (h : s.releaseFinish n r = .next s') :
    Step s (.releaseFinish n r) s' := by
  simp only [State.releaseFinish, bind_eq_next, await_eq_next] at h
  obtain ⟨_, hmem, h⟩ := h
  split at h
  · cases h
  · rename_i b hpushed
    split at h
    · rename_i hkeep
      obtain rfl := next.inj h
      exact .releaseEnd hmem hpushed hkeep
    · rename_i hgive
      obtain rfl := next.inj h
      exact .releaseUnlock hmem hpushed hgive

theorem pending_cases {p : PendingRequest N} (h : s.pending n p = .next s') :
    Step s (.pending n p) s' := by
  simp only [State.pending, bind_eq_next, await_eq_next, cassert_eq_next] at h
  obtain ⟨_, hmem, _, hne, ⟨lk, k⟩, hcall, _, hdest, h⟩ := h
  obtain ⟨hfree, hp, hcase⟩ := pending_next hcall
  obtain rfl := next.inj h
  refine .pending hmem hne hfree hp hcase ?_
  cases hcase <;> exact hdest

theorem pendingFinish_cases {p : PendingHandler N} (h : s.pendingFinish n p = .next s') :
    Step s (.pendingFinish n p) s' := by
  simp only [State.pendingFinish, bind_eq_next, await_eq_next] at h
  obtain ⟨_, hmem, h⟩ := h
  split at h
  · rename_i hgive
    simp only [bind_eq_next, cassert_eq_next] at h
    obtain ⟨s₁, hcall, _, hbuf, h⟩ := h
    obtain ⟨hdest, rfl⟩ := pushTo_next hcall
    have hself := sent_nodes_self (s := s) fun d hd => (hdest d hd).1
    obtain rfl := next.inj h
    rw [hself] at hbuf ⊢
    exact .pendingGive hmem hgive (fun d hd => (hdest d hd).1) hbuf
  · rename_i hkeep
    obtain rfl := next.inj h
    have := Step.pendingKeep hmem (Nat.eq_zero_of_not_pos hkeep)
    cases hd : p.dest with
    | none | some d => simpa [hd] using this

theorem dirUnlock_cases {u : UnlockCall} (h : s.dirUnlock n u = .next s') :
    Step s (.dirUnlock n u) s' := by
  simp only [State.dirUnlock, bind_eq_next, await_eq_next] at h
  obtain ⟨_, ⟨hmem, hserved⟩, ⟨d, msgs⟩, hcall, h⟩ := h
  obtain rfl := next.inj h
  exact .dirUnlock hmem hserved hcall

theorem unlockReturn_cases {u : UnlockCall} (h : s.unlockReturn n u = .next s') :
    Step s (.unlockReturn n u) s' := by
  simp only [State.unlockReturn, bind_eq_next, await_eq_next, cassert_eq_next] at h
  obtain ⟨_, ⟨hmem, hserved⟩, _, hbuf, h⟩ := h
  obtain rfl := next.inj h
  exact .unlockReturn hmem hserved hbuf

theorem pushArrive_cases (h : s.pushArrive n page = .next s') : Step s (.pushArrive n page) s' := by
  simp only [State.pushArrive, bind_eq_next, await_eq_next, cassert_eq_next] at h
  obtain ⟨_, hmem, _, hbuf, h⟩ := h
  obtain rfl := next.inj h
  exact .pushArrive hmem (by simpa using hbuf)

theorem pushNotify_cases (h : s.pushNotify n = .next s') : Step s (.pushNotify n) s' := by
  simp only [State.pushNotify, bind_eq_next, await_eq_next] at h
  obtain ⟨_, hpos, lk, hcall, h⟩ := h
  obtain ⟨hfree, hg, rfl⟩ := remotePushPageSuccess_next hcall
  obtain rfl := next.inj h
  exact .pushNotify hpos hfree hg

theorem lockSuccess_cases {g : LockSuccessRequest N} (h : s.lockSuccess n g = .next s') :
    Step s (.lockSuccess n g) s' := by
  simp only [State.lockSuccess, bind_eq_next, await_eq_next, cassert_eq_next] at h
  obtain ⟨_, hmem, lk, hcall, _, hne, h⟩ := h
  obtain ⟨hfree, hg, rfl⟩ := remoteNotifyLockSuccess_next hcall
  obtain rfl := next.inj h
  have := Step.lockSuccess hmem hfree hg hne
  simpa [foldl_addToPushListNoBlock, LockSuccessRequest.notify,
    unlockMtx, takeMtx, Mutex.unlock_of_relock hfree] using this

theorem beginEvict_cases (h : s.beginEvict n = .next s') : Step s (.beginEvict n) s' := by
  simp only [State.beginEvict, bind_eq_next, await_eq_next] at h
  obtain ⟨⟨lk, ok⟩, hcall, _, rfl, h⟩ := h
  obtain ⟨hquiet, h0, hrel, rfl⟩ := tryBeginEvict_next hcall
  obtain rfl := next.inj h
  exact .beginEvict hquiet h0 hrel

theorem evictLost_cases (h : s.evictLost n = .next s') : Step s (.evictLost n) s' := by
  simp only [State.evictLost, bind_eq_next, await_eq_next] at h
  obtain ⟨_, ⟨hmem, hbuf⟩, h⟩ := h
  obtain rfl := next.inj h
  exact .evictLost hmem (by simpa using hbuf)

theorem evictCheck_cases (h : s.evictCheck n = .next s') : Step s (.evictCheck n) s' := by
  simp only [State.evictCheck, bind_eq_next, await_eq_next] at h
  obtain ⟨_, hmem, ⟨lk, k⟩, hcall, h⟩ := h
  obtain ⟨hfree, hk, rfl⟩ := getUnlockType_next hcall
  have hunlock : (s.nodes n).lk.takeMtx.unlockMtx = (s.nodes n).lk := by
    simp [unlockMtx, takeMtx, Mutex.unlock_of_relock hfree]
  rw [hunlock] at h
  split at h
  · rename_i h0
    obtain rfl := next.inj h
    exact .evictNone hmem hfree (hk.1 h0)
  · rename_i h0
    split at h
    · cases h
    · rename_i page hbuf
      obtain rfl := next.inj h
      exact .evictAsk hmem hfree (fun hm => h0 (hk.2 hm)) hbuf

theorem dirEvict_cases {lsn : Nat} (h : s.dirEvict n lsn = .next s') :
    Step s (.dirEvict n lsn) s' := by
  simp only [State.dirEvict, bind_eq_next, await_eq_next] at h
  obtain ⟨_, hmem, ⟨d, agree⟩, hcall, h⟩ := h
  obtain rfl := next.inj h
  exact .dirEvict hmem hcall

theorem evictReplace_cases (h : s.evictReplace n = .next s') : Step s (.evictReplace n) s' := by
  simp only [State.evictReplace, bind_eq_next, await_eq_next, cassert_eq_next] at h
  obtain ⟨_, hmem, _, hbuf, h⟩ := h
  obtain rfl := next.inj h
  exact .evictReplace hmem hbuf

theorem evictDone_cases (h : s.evictDone n = .next s') : Step s (.evictDone n) s' := by
  simp only [State.evictDone, bind_eq_next, await_eq_next] at h
  obtain ⟨_, hmem, lk, hcall, h⟩ := h
  obtain ⟨hfree, rfl⟩ := unlockAny_next hcall
  obtain rfl := next.inj h
  exact .evictDone hmem hfree

theorem endEvict_cases (h : s.endEvict n = .next s') : Step s (.endEvict n) s' := by
  simp only [State.endEvict, bind_eq_next, await_eq_next] at h
  obtain ⟨_, hmem, lk, hcall, h⟩ := h
  obtain ⟨hfree, he, rfl⟩ := endEvict_next hcall
  obtain rfl := next.inj h
  exact .endEvict hmem hfree he

/-- A completed step of the code is one of the listed ones. -/
theorem step_cases {a : Action N α} (h : s.step a = .next s') : Step s a s' := by
  cases a with
  | lock n x => exact lock_cases h
  | dirLock n f => exact dirLock_cases h
  | notifyPush n f => exact notifyPush_cases h
  | readStorage n f k => exact readStorage_cases h
  | gotPush n f => exact gotPush_cases h
  | gotLock n f => exact gotLock_cases h
  | takePushList n f => exact takePushList_cases h
  | pushNext n f => exact pushNext_cases h
  | fetchDone n f => exact fetchDone_cases h
  | write n f llsn => exact write_cases h
  | writeUnlogged n f => exact writeUnlogged_cases h
  | release n x => exact release_cases h
  | releasePush n r => exact releasePush_cases h
  | releaseFinish n r => exact releaseFinish_cases h
  | pending n p => exact pending_cases h
  | pendingFinish n p => exact pendingFinish_cases h
  | dirUnlock n u => exact dirUnlock_cases h
  | unlockReturn n u => exact unlockReturn_cases h
  | pushArrive n page => exact pushArrive_cases h
  | pushNotify n => exact pushNotify_cases h
  | lockSuccess n g => exact lockSuccess_cases h
  | beginEvict n => exact beginEvict_cases h
  | evictLost n => exact evictLost_cases h
  | evictCheck n => exact evictCheck_cases h
  | dirEvict n lsn => exact dirEvict_cases h
  | evictReplace n => exact evictReplace_cases h
  | evictDone n => exact evictDone_cases h
  | endEvict n => exact endEvict_cases h

end Cases

theorem pushed_eq_sent {s : State N α} {n : NodeId N} (buf : (s.nodes n).buffer = some page) :
    s.pushed d page = s.sent n (some d) := by
  simp [State.sent, buf]

section AllNodes

variable {P : NodeId N → Node N α → Prop} {s : State N α} {n : NodeId N} {nd : Node N α}

theorem forall_setNode (h : ∀ k, P k (s.nodes k)) (hnd : P n nd) (k : NodeId N) :
    P k ((s.setNode n nd).nodes k) := by
  by_cases hk : k = n
  · subst hk
    simpa [State.setNode] using hnd
  · simpa [State.setNode, Function.update, hk] using h k

theorem forall_sent  (h : ∀ k, P k (s.nodes k))
    (hpush : ∀ d page, dest = some d → (s.nodes n).buffer = some page →
      P d { s.nodes d with pushes := (s.nodes d).pushes ++ [page] }) (k : NodeId N) :
    P k ((s.sent n dest).nodes k) := by
  unfold State.sent
  split
  · rename_i d page hpage
    exact forall_setNode h (hpush d page rfl hpage) k
  · exact h k

end AllNodes

end LazyRelease
