import HybridCloud.LazyRelease.LocalPageLock

/-!
# What the functions of the local lock can do

One inversion lemma for each member function of `LRLocalPageLock`: what must have been the case if
the function completed, and what it returned.
-/

namespace LazyRelease.LRLocalPageLock

open GPLM Outcome

variable {N : Nat} {l l' : LRLocalPageLock N}

attribute [local simp] lockMtx unlockMtx bind_eq_next Mutex.lock_eq_next

/-- The lock with its mutex taken. -/
def takeMtx (l : LRLocalPageLock N) : LRLocalPageLock N :=
  { l with mutex := { l.mutex with held := true } }

/-- The lock with its mutex free. -/
def freeMtx (l : LRLocalPageLock N) : LRLocalPageLock N :=
  { l with mutex := { l.mutex with held := false } }

/-- The state in which the loops of `LockShared` and `LockExclusive` go on. -/
structure Quiet (l : LRLocalPageLock N) : Prop where
  free : l.mutex.held = false
  not_granting : l.isGranting = false
  not_pending : l.isPending = false
  not_evicting : l.isEvicting = false

theorem lockShared_next {b : Bool} (h : l.lockShared = .next (l', b)) :
    l.Quiet ∧ l.lock + 1 < EXCLUSIVE_LOCKED ∧ b = decide (l.remoteMode = .none) ∧
      l' = { l with lock := l.lock + 1, isGranting := decide (l.remoteMode = .none) } := by
  rcases l with ⟨_, mode, _, _, _, _, _, _, _, _, _, ⟨_, _⟩⟩
  cases mode <;> simp [lockShared, addReader] at h
  case none =>
    obtain ⟨rfl, ⟨rfl, rfl, rfl⟩, hlt, rfl, rfl⟩ := h
    exact ⟨⟨rfl, rfl, rfl, rfl⟩, hlt, rfl, rfl⟩
  all_goals
    obtain ⟨rfl, ⟨rfl, rfl, rfl⟩, -, hlt, rfl, rfl⟩ := h
    exact ⟨⟨rfl, rfl, rfl, rfl⟩, hlt, rfl, rfl⟩

theorem lockExclusive_next {b : Bool} (h : l.lockExclusive = .next (l', b)) :
    l.Quiet ∧ l.lock = 0 ∧ b = decide (l.remoteMode ≠ .exclusive) ∧
      l' = { l with lock := EXCLUSIVE_LOCKED, isGranting := decide (l.remoteMode ≠ .exclusive) } := by
  rcases l with ⟨_, mode, _, _, _, _, _, _, _, _, _, ⟨_, _⟩⟩
  cases mode <;> simp [lockExclusive] at h <;>
    obtain ⟨rfl, ⟨rfl, rfl, rfl⟩, rfl, rfl, rfl⟩ := h <;>
    exact ⟨⟨rfl, rfl, rfl, rfl⟩, rfl, rfl, rfl⟩

/-- What the tests of a lock call have found. -/
structure LockCall.Passed (c : LockCall) (l : LRLocalPageLock N) : Prop where
  not_granting : l.isGranting = false
  not_pending : l.isPending = false
  not_evicting : l.isEvicting = false
  lock : if c.x then l.lock = 0 else l.lock + 1 < EXCLUSIVE_LOCKED
  lockRemote : c.lockRemote =
    if c.x then decide (l.remoteMode ≠ .exclusive) else decide (l.remoteMode = .none)

theorem lockTests_next {x : Bool} {c : LockCall} (h : l.lockTests x = .next (l', c)) :
    l.mutex.held = false ∧ c.Passed l ∧ l' = l.takeMtx := by
  rcases l with ⟨_, mode, _, _, _, _, _, _, _, _, _, ⟨_, _⟩⟩
  cases x with
  | false =>
    simp [lockTests] at h
    obtain ⟨rfl, ⟨rfl, rfl, rfl⟩, -, -, hlt, rfl, rfl⟩ := h
    exact ⟨rfl, ⟨rfl, rfl, rfl, hlt, rfl⟩, rfl⟩
  | true =>
    simp [lockTests] at h
    obtain ⟨rfl, ⟨rfl, rfl, rfl⟩, rfl, rfl, rfl⟩ := h
    exact ⟨rfl, ⟨rfl, rfl, rfl, rfl, by simp⟩, rfl⟩

/-- As long as the tests hold, the stores complete the call as if it had not been interrupted. -/
theorem LockCall.Passed.lockStores {c : LockCall} (h : c.Passed l) (held : l.mutex.held = true) :
    (if c.x then l.freeMtx.lockExclusive else l.freeMtx.lockShared) =
      .next (l.lockStores c, c.lockRemote) := by
  rcases l with ⟨k, mode, _, _, _, _, _, _, _, _, _, ⟨_, _⟩⟩
  rcases c with ⟨x, lockRemote⟩
  obtain ⟨rfl, rfl, rfl, hlock, hremote⟩ := h
  obtain rfl := held
  cases x with
  | false =>
    simp only [Bool.false_eq_true, if_false] at hlock hremote ⊢
    have hne : k ≠ EXCLUSIVE_LOCKED := by omega
    cases mode <;> simp [freeMtx, lockShared, addReader, LRLocalPageLock.lockStores, Mutex.lock,
      Mutex.unlock, await, cassert, hlock, hne, hremote]
  | true =>
    simp only [if_true] at hlock hremote ⊢
    cases mode <;> simp [freeMtx, lockExclusive, LRLocalPageLock.lockStores, Mutex.lock,
      Mutex.unlock, await, hlock, hremote]

theorem lockRemoteOK_next (h : l.lockRemoteOK = .next l') :
    l.mutex.held = false ∧ l.isGranting = true ∧
      l' = { l with remoteMode := if l.lock = EXCLUSIVE_LOCKED then .exclusive else .shared
                    isGranting := false, isReleased := false } := by
  rcases l with ⟨_, _, _, _, _, _, _, _, _, _, _, ⟨_, _⟩⟩
  simp [lockRemoteOK] at h
  obtain ⟨rfl, rfl, rfl⟩ := h
  exact ⟨rfl, rfl, rfl⟩

theorem remotePushPageSuccess_next (h : l.remotePushPageSuccess = .next l') :
    l.mutex.held = false ∧ l.isGranting = true ∧ l' = { l with updateSuccess := true } := by
  rcases l with ⟨_, _, _, _, _, _, _, _, _, _, _, ⟨_, _⟩⟩
  simp [remotePushPageSuccess] at h
  obtain ⟨rfl, rfl, rfl⟩ := h
  exact ⟨rfl, rfl, rfl⟩

theorem remoteNotifyLockSuccess_next {x isNewest : Bool}
    (h : l.remoteNotifyLockSuccess x isNewest = .next l') :
    l.mutex.held = false ∧ l.isGranting = true ∧
      l' = { l.takeMtx with successReturn := true, needWait := !isNewest } := by
  rcases l with ⟨_, _, _, _, _, _, _, _, _, _, _, ⟨_, _⟩⟩
  simp [remoteNotifyLockSuccess] at h
  obtain ⟨rfl, rfl, -, rfl⟩ := h
  exact ⟨rfl, rfl, rfl⟩

theorem foldl_addToPushListNoBlock (dests : List (NodeId N)) (l : LRLocalPageLock N) :
    dests.foldl (fun l m => l.addToPushListNoBlock m) l =
      { l with pushList := l.pushList ++ dests } := by
  induction dests generalizing l with
  | nil => simp
  | cons m dests ih => rw [List.foldl_cons, ih]; simp [addToPushListNoBlock]

theorem tryGetPushData_next (h : l.tryGetPushData = .next l') :
    l.mutex.held = false ∧ l.isGranting = true ∧ l.updateSuccess = true ∧
      l' = { l with updateSuccess := false } := by
  rcases l with ⟨_, _, _, _, _, _, _, _, _, _, _, ⟨_, _⟩⟩
  simp [tryGetPushData] at h
  obtain ⟨rfl, rfl, rfl, rfl⟩ := h
  exact ⟨rfl, rfl, rfl, rfl⟩

theorem tryRemoteLockSuccess_next (h : l.tryRemoteLockSuccess = .next l') :
    l.mutex.held = false ∧ l.isGranting = true ∧ l.successReturn = true ∧
      l.updateSuccess = l.needWait ∧
      l' = { l with updateSuccess := false, needWait := false, successReturn := false } := by
  rcases l with ⟨_, _, _, _, _, need, _, _, _, _, _, ⟨_, _⟩⟩
  cases need <;> simp [tryRemoteLockSuccess] at h <;>
    obtain ⟨rfl, rfl, rfl, rfl, rfl⟩ := h <;>
    exact ⟨rfl, rfl, rfl, rfl, rfl⟩

theorem remotePushPageSuccess_abort (h : l.remotePushPageSuccess = .abort) :
    l.isGranting = false := by
  rcases l with ⟨lock, _, _, grant, _, _, _, _, _, _, _, ⟨held, _⟩⟩
  cases held <;> cases grant <;>
    simp [remotePushPageSuccess, Mutex.lock, await, cassert] at h ⊢

theorem tryRemoteLockSuccess_abort (h : l.tryRemoteLockSuccess = .abort) :
    l.isGranting = false ∨
      l.successReturn = true ∧ l.needWait = false ∧ l.updateSuccess = true := by
  rcases l with ⟨lock, _, _, grant, success, need, update, _, _, _, _, ⟨held, _⟩⟩
  cases held <;> cases grant <;> cases success <;> cases need <;> cases update <;>
    simp [tryRemoteLockSuccess, Mutex.lock, await, cassert] at h ⊢

theorem getPushList_next {dests : List (NodeId N)} (h : l.getPushList = .next (l', dests)) :
    l.mutex.held = false ∧ dests = l.pushList ∧ l' = { l with pushList := [] } := by
  rcases l with ⟨lock, _, _, _, _, _, _, _, _, _, _, ⟨_, _⟩⟩
  simp [getPushList] at h
  obtain ⟨rfl, rfl, rfl⟩ := h
  exact ⟨rfl, rfl, rfl⟩

/-- What `tryUnlockShared` returns, given the lock. -/
def sharedUnlockType (l : LRLocalPageLock N) : Nat :=
  if l.lock = 1 ∧ l.isPending = true then if l.remoteMode = .shared then 1 else 2 else 0

theorem tryUnlockShared_next {k : Nat} (h : l.tryUnlockShared = .next (l', k)) :
    l.mutex.held = false ∧ 0 < l.lock ∧ l.lock ≠ EXCLUSIVE_LOCKED ∧ l.isGranting = false ∧
      k = l.sharedUnlockType ∧
      l' = { l.takeMtx with isReleased := l.isReleased || k ≠ 0 } := by
  simp only [tryUnlockShared, lockMtx, bind_eq_next, Mutex.lock_eq_next, cassert_eq_next] at h
  obtain ⟨l₁, ⟨_, ⟨hfree, rfl⟩, hl₁⟩, _, hpos, _, hne, _, hg, h⟩ := h
  obtain rfl := next.inj hl₁
  have hlock : l.lock - 1 = 0 ↔ l.lock = 1 := by have := hpos; simp only at this; omega
  refine ⟨hfree, hpos, hne, hg, ?_⟩
  by_cases hc : l.lock = 1 ∧ l.isPending = true
  · simp only [hc, Nat.sub_self, and_self, ite_true, pure_def, next.injEq, Prod.mk.injEq] at h
    obtain ⟨rfl, rfl⟩ := h
    cases hm : l.remoteMode <;> simp [sharedUnlockType, hc, hm, takeMtx]
  · simp only [hlock, hc, ite_false, pure_def, next.injEq, Prod.mk.injEq] at h
    obtain ⟨rfl, rfl⟩ := h
    simp [sharedUnlockType, hc, takeMtx]

theorem tryUnlockExclusive_next {k : Nat} (h : l.tryUnlockExclusive = .next (l', k)) :
    l.mutex.held = false ∧ l.remoteMode = .exclusive ∧ l.lock = EXCLUSIVE_LOCKED ∧
      l.isGranting = false ∧ k = (if l.isPending then 2 else 0) ∧
      l' = { l.takeMtx with isReleased := l.isReleased || l.isPending } := by
  rcases l with ⟨lock, _, pend, _, _, _, _, _, _, _, _, ⟨_, _⟩⟩
  cases pend <;> simp [tryUnlockExclusive] at h <;>
    obtain ⟨rfl, rfl, rfl, rfl, rfl, rfl⟩ := h <;>
    simp [takeMtx]

/-- What `Pending` does to the flags. -/
inductive PendingCase (l : LRLocalPageLock N) (xpending : Bool) : LRLocalPageLock N → Nat → Prop where
  /-- Nobody uses the page: it is given up. -/
  | unused (hg : l.isGranting = false) (hm : l.remoteMode ≠ .none) (hl : l.lock = 0) {k : Nat}
      (hk : 0 < k) : PendingCase l xpending { l.takeMtx with isReleased := true, remoteMode := .none } k
  /-- The page is in use: the release will give it up. -/
  | used (hg : l.isGranting = false) (hm : l.remoteMode ≠ .none) (hl : l.lock ≠ 0) :
      PendingCase l xpending { l.takeMtx with isPending := true } 0
  /-- The shared lock is given up although an upgrade is on its way. -/
  | upgrading (hg : l.isGranting = true) (hm : l.remoteMode = .shared)
      (hl : l.lock = EXCLUSIVE_LOCKED) (hx : xpending = false) :
      PendingCase l xpending { l.takeMtx with remoteMode := .none } 1
  /-- The lock that is being granted will be given up once it has been used. -/
  | granting (hg : l.isGranting = true)
      (hm : l.remoteMode = .none ∨ l.remoteMode = .shared ∧ xpending = true) :
      PendingCase l xpending { l.takeMtx with isPending := true } 0

theorem pending_next {x : Bool} {k : Nat} (h : l.pending x = .next (l', k)) :
    l.mutex.held = false ∧ l.isPending = false ∧ PendingCase l x l' k := by
  rcases l with ⟨lock, mode, _, grant, _, _, _, _, _, _, _, ⟨_, _⟩⟩
  cases grant <;> cases mode <;> simp [pending] at h
  case true.none =>
    obtain ⟨rfl, rfl, rfl, rfl⟩ := h
    exact ⟨rfl, rfl, .granting rfl (.inl rfl)⟩
  case true.shared =>
    obtain ⟨rfl, rfl, rfl, h⟩ := h
    cases x <;> simp at h <;> obtain ⟨rfl, rfl⟩ := h
    · exact ⟨rfl, rfl, .upgrading rfl rfl rfl rfl⟩
    · exact ⟨rfl, rfl, .granting rfl (.inr ⟨rfl, rfl⟩)⟩
  all_goals
    obtain ⟨rfl, rfl, h⟩ := h
    by_cases hl : lock = 0 <;> simp [hl] at h <;> obtain ⟨rfl, rfl⟩ := h
    · subst hl
      exact ⟨rfl, rfl, .unused rfl (by simp) rfl (by decide)⟩
    · exact ⟨rfl, rfl, .used rfl (by simp) hl⟩

theorem tryBeginEvict_next {l' : LRLocalPageLock N} (h : l.tryBeginEvict = .next (l', true)) :
    l.Quiet ∧ l.lock = 0 ∧ l.isReleased = false ∧ l' = { l with isEvicting := true } := by
  rcases l with ⟨_, _, _, _, _, _, _, _, _, ev, rel, ⟨held, _⟩⟩
  simp only [tryBeginEvict, lockMtx, bind_eq_next, Mutex.lock_eq_next] at h
  obtain ⟨_, ⟨_, ⟨hfree, rfl⟩, hl₁⟩, h⟩ := h
  obtain rfl := next.inj hl₁
  obtain rfl : held = false := hfree
  cases ev <;> cases rel <;> simp at h
  split at h <;> simp [] at h
  rename_i hc
  obtain ⟨rfl, rfl, rfl⟩ := hc
  subst h
  exact ⟨⟨rfl, rfl, rfl, rfl⟩, rfl, rfl, rfl⟩

theorem endEvict_next (h : l.endEvict = .next l') :
    l.mutex.held = false ∧ l.isEvicting = true ∧ l' = { l with isEvicting := false } := by
  rcases l with ⟨_, _, _, _, _, _, _, _, _, _, _, ⟨_, _⟩⟩
  simp [endEvict] at h
  obtain ⟨rfl, rfl, rfl⟩ := h
  exact ⟨rfl, rfl, rfl⟩

theorem unlockAny_next (h : l.unlockAny = .next l') :
    l.mutex.held = false ∧ l' = { l with remoteMode := .none, isReleased := true } := by
  rcases l with ⟨_, _, _, _, _, _, _, _, _, _, _, ⟨_, _⟩⟩
  simp [unlockAny] at h
  obtain ⟨rfl, rfl, ⟨rfl, rfl⟩, rfl⟩ := h
  exact ⟨rfl, rfl⟩

theorem getUnlockType_next {k : Nat} (h : l.getUnlockType = .next (l', k)) :
    l.mutex.held = false ∧ (k = 0 ↔ l.remoteMode = .none) ∧ l' = l.takeMtx := by
  rcases l with ⟨_, mode, _, _, _, _, _, _, _, _, _, ⟨_, _⟩⟩
  cases mode <;> simp [getUnlockType] at h <;>
    obtain ⟨rfl, rfl, rfl⟩ := h <;> simp [takeMtx]

end LazyRelease.LRLocalPageLock
