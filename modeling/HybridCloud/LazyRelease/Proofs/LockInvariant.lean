import HybridCloud.GPLM.Proofs.DirectoryView
import HybridCloud.LazyRelease.Proofs.StepCases
import HybridCloud.Lib.Counting

/-!
# What every node knows about the directory

`NodeInv a n nd` relates the record of node `n` to the directory `a`. It does not rely on the mutex
of the local lock, so it holds in every run, also in one where an eviction unlocks a mutex that it
does not hold. The two tables disagree while messages are on their way, and `Phase` lists the ways
in which they may.
-/

namespace LazyRelease

open GPLM Outcome Counting

variable {N : Nat} {α : Type}

attribute [local simp] EXCLUSIVE_LOCKED Node.setStage Release.unlock

/-- The directory has asked node `n` to give the page up. -/
def Pended (a : AbsDirectory N) (n : NodeId N) : Prop :=
  n ∈ a.holders ∧ ∃ r rs, a.queue = r :: rs ∧ r.nodeId ≠ n

/-- What the mode of the local lock says about the directory. A node that has given its lock up may
still be listed, but then the directory has asked for it. -/
def Holds (a : AbsDirectory N) (n : NodeId N) : LockMode → Prop
  | .none => n ∈ a.holders → Pended a n
  | .shared => n ∈ a.holders ∧ a.excl = false
  | .exclusive => n ∈ a.holders ∧ a.excl = true

theorem Holds.mem {a : AbsDirectory N} {n : NodeId N} {m : LockMode} (h : Holds a n m)
    (hm : m ≠ .none) : n ∈ a.holders := by
  cases m with
  | none => exact absurd rfl hm
  | shared | exclusive => exact h.1

/-- The directory has granted node `n` the lock it asked for. -/
structure Granted (a : AbsDirectory N) (n : NodeId N) (x : Bool) : Prop where
  unqueued : n ∉ a.queued
  holder : n ∈ a.holders
  excl : a.excl = x

/-- The directory has taken the page from the node in favour of an eviction. -/
def Evict.past : Evict → Bool
  | .agreed | .replaced => true
  | _ => false

namespace Node

/-- How many threads are about to tell the directory that the node gives the page up. -/
def giving (nd : Node N α) : Nat :=
  nd.handlers.countP (fun h => 0 < h.unlockRemote) + nd.unlocks.countP fun u => !u.served

/-- How often the node has been asked for the page without having told the directory that it gives
it up. -/
def duties (nd : Node N α) : Nat :=
  nd.pendings.length + nd.lk.isPending.toNat + nd.giving

/-- Readers that have not called `UnlockShared` yet. -/
def sharedUsers (nd : Node N α) : Nat := nd.readers + nd.releases.countP fun r => !r.x

/-- Writers that have not called `UnlockExclusive` yet. -/
def exclusiveUsers (nd : Node N α) : Nat := nd.writers + nd.releases.countP fun r => r.x

/-- The lock word counts the threads that use the page. -/
def Users (nd : Node N α) : Prop :=
  (nd.lk.lock = EXCLUSIVE_LOCKED ∧ nd.exclusiveUsers = 1 ∧ nd.sharedUsers = 0 ∧
      nd.lk.remoteMode = .exclusive) ∨
    (nd.lk.lock < EXCLUSIVE_LOCKED ∧ nd.lk.lock = nd.sharedUsers ∧ nd.exclusiveUsers = 0 ∧
      (nd.lk.lock ≠ 0 → nd.lk.remoteMode ≠ .none))

end Node

/-- No thread of the node asks the directory. -/
structure Idle (a : AbsDirectory N) (n : NodeId N) (nd : Node N α) : Prop where
  fetches : nd.fetches = []
  granting : nd.lk.isGranting = false
  unqueued : n ∉ a.queued
  grants : nd.grants = []
  success : nd.lk.successReturn = false
  users : nd.Users

/-- One thread of the node, `f`, asks the directory, and no other one uses the page. -/
structure Asking (nd : Node N α) (f : Fetch N) : Prop where
  fetches : nd.fetches = [f]
  granting : nd.lk.isGranting = true
  /-- The lock word is set for this fetch. -/
  lock : nd.lk.lock = if f.x then EXCLUSIVE_LOCKED else 1
  readers : nd.readers = 0
  writers : nd.writers = 0
  releases : nd.releases = []
  /-- The node does not ask for what it has. -/
  mode : nd.lk.remoteMode = .none ∨ nd.lk.remoteMode = .shared ∧ f.x = true

/-- How far the request of fetch `f` is. -/
inductive FetchPhase (a : AbsDirectory N) (n : NodeId N) (nd : Node N α) (f : Fetch N) : Prop where
  /-- It is on its way or in the queue. -/
  | waiting (grants : nd.grants = []) (success : nd.lk.successReturn = false)
      (holds : Holds a n nd.lk.remoteMode)
      (stage : f.stage = .asking ∧ n ∉ a.queued ∨
        f.stage = .answered .waitLockRelease ∧ ⟨n, f.x⟩ ∈ a.queue)
  /-- It has been granted. A fetch that had to wait has one LockSuccess request coming. -/
  | served (granted : Granted a n f.x) (stage : f.stage ≠ .asking)
      (notice : nd.grants.length + nd.lk.successReturn.toNat =
        if f.stage = .answered .waitLockRelease then 1 else 0)
      (kept : nd.giving = 0)

/-- What the node is doing as far as the directory is concerned. -/
inductive Phase (a : AbsDirectory N) (n : NodeId N) (nd : Node N α) : Prop where
  /-- It has the lock or does not want it. During an eviction the directory may have taken the page
  already. -/
  | idle (idle : Idle a n nd)
      (standing : if nd.evicts.any Evict.past then n ∉ a.holders else Holds a n nd.lk.remoteMode)
  /-- One of its threads asks the directory. -/
  | fetching {f : Fetch N} (asking : Asking nd f) (phase : FetchPhase a n nd f)

/-- The record of one node agrees with the directory. -/
structure NodeInv (a : AbsDirectory N) (n : NodeId N) (nd : Node N α) : Prop where
  phase : Phase a n nd
  /-- The node is asked for the page at most once at a time. -/
  duties_le : nd.duties ≤ 1
  /-- It is asked only if the directory wants the page. -/
  duties_pended : 0 < nd.duties → Pended a n
  /-- A Pending request names the kind of lock the node holds. -/
  pending_excl : ∀ p ∈ nd.pendings, p.xpending = a.excl
  /-- A node that gives the page up has cleared its lock. -/
  giving_mode : 0 < nd.giving → nd.lk.remoteMode = .none
  /-- The release that gives the page up is the last one. -/
  release_pending : ∀ r ∈ nd.releases, r.unlockRemote ≠ 0 →
    nd.lk.isPending = true ∧ (r.x = false → nd.lk.lock = 1)
  /-- There is one eviction while `is_evicting` is set. -/
  evicts_length : nd.evicts.length = nd.lk.isEvicting.toNat
  /-- During an eviction nobody uses the page. -/
  evicting_idle : nd.lk.isEvicting = true →
    nd.lk.lock = 0 ∧ nd.lk.isGranting = false ∧ nd.lk.isPending = false

/-- The directory is consistent, and every node agrees with it. -/
structure LockInv (s : State N α) : Prop where
  /-- The directory represents an abstract one. -/
  sound : s.dir.Sound
  /-- Every node agrees with it. -/
  node : ∀ n, NodeInv s.dir.view n (s.nodes n)

variable {r : Release} {f : Fetch N}

section Read

variable {a : AbsDirectory N} {n : NodeId N} {nd : Node N α}

theorem mem_queued : n ∈ a.queued ↔ ∃ x, ⟨n, x⟩ ∈ a.queue := by
  constructor
  · intro h
    obtain ⟨r, hr, rfl⟩ := List.mem_map.1 h
    exact ⟨r.xlock, hr⟩
  · rintro ⟨x, hx⟩
    exact List.mem_map.2 ⟨⟨n, x⟩, hx, rfl⟩

theorem Pended.queue_ne_nil (h : Pended a n) : a.queue ≠ [] := by
  obtain ⟨-, r, rs, hq, -⟩ := h
  simp [hq]

theorem Phase.idle_of_not_granting (h : Phase a n nd) (hg : nd.lk.isGranting = false) :
    Idle a n nd ∧ (if nd.evicts.any Evict.past then n ∉ a.holders
      else Holds a n nd.lk.remoteMode) := by
  cases h with
  | idle hi hs => exact ⟨hi, hs⟩
  | fetching ha => simp [ha.granting] at hg

theorem Phase.not_granting_of_release (h : Phase a n nd) (hr : r ∈ nd.releases) :
    nd.lk.isGranting = false := by
  cases h with
  | idle hi => exact hi.granting
  | fetching ha => simp [ha.releases] at hr

section

variable (h : NodeInv a n nd)
include h

theorem NodeInv.evicts_nil (he : nd.lk.isEvicting = false) :
    nd.evicts = [] := by
  simpa [he] using h.evicts_length

theorem NodeInv.evicts_nil_of_granting (hg : nd.lk.isGranting = true) :
    nd.evicts = [] := by
  refine h.evicts_nil ?_
  by_contra he
  simp [h.evicting_idle (by simpa using he)] at hg

theorem NodeInv.evicts_eq {e : Evict} (he : e ∈ nd.evicts) :
    nd.evicts = [e] ∧ nd.lk.isEvicting = true := by
  have hlen := h.evicts_length
  cases hv : nd.lk.isEvicting with
  | false => simp [hv] at hlen; simp [hlen] at he
  | true => exact ⟨eq_singleton_of_mem he (by simpa [hv] using hlen), rfl⟩

theorem NodeInv.idle (hg : nd.lk.isGranting = false) : Idle a n nd :=
  (h.phase.idle_of_not_granting hg).1

theorem NodeInv.idle_of_release (hr : r ∈ nd.releases) : Idle a n nd :=
  h.idle (h.phase.not_granting_of_release hr)

theorem NodeInv.idle_of_evict {e : Evict} (he : e ∈ nd.evicts) : Idle a n nd :=
  h.idle (h.evicting_idle (h.evicts_eq he).2).2.1

/-- An eviction that the directory has agreed to takes the node off its list. -/
theorem NodeInv.left_of_past {e : Evict} (he : e ∈ nd.evicts)
    (hpast : e.past = true) : n ∉ a.holders := by
  have hstand := (h.phase.idle_of_not_granting (h.idle_of_evict he).granting).2
  rwa [if_pos (List.any_eq_true.2 ⟨e, he, hpast⟩)] at hstand

theorem NodeInv.not_evicting (hl : nd.lk.lock ≠ 0) :
    nd.lk.isEvicting = false := by
  by_contra he
  exact hl (h.evicting_idle (by simpa using he)).1

theorem NodeInv.holds_of_quiet (hg : nd.lk.isGranting = false)
    (he : nd.lk.isEvicting = false) : Holds a n nd.lk.remoteMode := by
  simpa [h.evicts_nil he] using (h.phase.idle_of_not_granting hg).2

theorem NodeInv.fetch_of_mem (hf : f ∈ nd.fetches) :
    Asking nd f ∧ FetchPhase a n nd f := by
  cases h.phase with
  | idle hi => simp [hi.fetches] at hf
  | fetching ha hp =>
    rw [ha.fetches] at hf
    obtain rfl := List.mem_singleton.1 hf
    exact ⟨ha, hp⟩

theorem NodeInv.setStage_fetches (hf : f ∈ nd.fetches) (stage : FetchStage N) :
    (nd.setStage f stage).fetches = [⟨f.x, stage⟩] := by
  simp [(h.fetch_of_mem hf).1.fetches]

end

theorem Node.giving_pos_of_handler {h : PendingHandler N} (mem : h ∈ nd.handlers)
    (gives : 0 < h.unlockRemote) : 0 < nd.giving := by
  have hpos : 0 < nd.handlers.countP fun h => decide (0 < h.unlockRemote) :=
    List.countP_pos_iff.2 ⟨h, mem, by simp [gives]⟩
  rw [Node.giving]
  omega

end Read

section Local

variable {a : AbsDirectory N} {n : NodeId N} {nd : Node N α}

theorem Node.Users.unused (h : nd.Users) (h0 : nd.lk.lock = 0) :
    nd.readers = 0 ∧ nd.writers = 0 ∧ nd.releases = [] := by
  rcases h with ⟨hl, -⟩ | ⟨-, hs, hx, -⟩
  · simp [h0] at hl
  · simp only [h0, Node.sharedUsers, Node.exclusiveUsers] at hs hx
    have hlen := countP_add_countP_not (fun r : Release => r.x) nd.releases
    exact ⟨by omega, by omega, List.length_eq_zero_iff.1 (by omega)⟩

theorem Node.Users.lock_eq_zero (h : nd.Users) (hm : nd.lk.remoteMode = .none) :
    nd.lk.lock = 0 := by
  rcases h with ⟨-, -, -, hx⟩ | ⟨-, -, -, hne⟩
  · simp [hm] at hx
  · by_contra h0
    exact hne h0 hm

theorem Node.Users.of_shared_release (h : nd.Users) (hr : r ∈ nd.releases) (hx : r.x = false) :
    nd.lk.lock < EXCLUSIVE_LOCKED ∧ nd.lk.lock = nd.sharedUsers ∧ nd.exclusiveUsers = 0 ∧
      nd.lk.remoteMode ≠ .none ∧ 0 < nd.releases.countP fun r => !r.x := by
  have hpos : 0 < nd.releases.countP fun r => !r.x :=
    List.countP_pos_iff.2 ⟨r, hr, by simp [hx]⟩
  rcases h with ⟨-, -, hs, -⟩ | ⟨hlt, hs, hxu, hne⟩
  · simp only [Node.sharedUsers] at hs
    omega
  · refine ⟨hlt, hs, hxu, hne ?_, hpos⟩
    simp only [Node.sharedUsers] at hs
    omega

theorem Node.Users.of_exclusive_release (h : nd.Users) (hr : r ∈ nd.releases) (hx : r.x = true) :
    nd.lk.lock = EXCLUSIVE_LOCKED ∧ nd.writers = 0 ∧ nd.readers = 0 ∧ nd.releases = [r] := by
  have hpos : 0 < nd.releases.countP fun r => r.x := List.countP_pos_iff.2 ⟨r, hr, by simp [hx]⟩
  rcases h with ⟨hl, hxu, hs, -⟩ | ⟨-, -, hxu, -⟩
  · simp only [Node.exclusiveUsers, Node.sharedUsers] at hxu hs
    have hlen := countP_add_countP_not (fun r : Release => r.x) nd.releases
    exact ⟨hl, by omega, by omega, eq_singleton_of_mem hr (by omega)⟩
  · simp only [Node.exclusiveUsers] at hxu
    omega

section

variable (h : NodeInv a n nd)
include h

theorem NodeInv.congr {nd' : Node N α} (hlk : nd'.lk = { nd.lk with
      needWait := nd'.lk.needWait, updateSuccess := nd'.lk.updateSuccess
      destNodeId := nd'.lk.destNodeId, pushList := nd'.lk.pushList
      isReleased := nd'.lk.isReleased, mutex := nd'.lk.mutex })
    (hnd : nd' = { nd with
      lk := nd'.lk, buffer := nd'.buffer, pushes := nd'.pushes, arrived := nd'.arrived
      received := nd'.received }) : NodeInv a n nd' := by
  rw [hnd, hlk]
  refine { h with phase := ?_ }
  cases h.phase with
  | idle hi hs => exact .idle { hi with } hs
  | fetching ha hp =>
    refine .fetching { ha with } ?_
    cases hp with
    | waiting hg hs hh hst => exact .waiting hg hs hh hst
    | served hg hst hn hk => exact .served hg hst hn hk

theorem NodeInv.lockLocalS (quiet : nd.lk.Quiet)
    (lt : nd.lk.lock + 1 < EXCLUSIVE_LOCKED) (mode : nd.lk.remoteMode ≠ .none) :
    NodeInv a n { nd with
      lk := { nd.lk with lock := nd.lk.lock + 1 }, readers := nd.readers + 1 } := by
  obtain ⟨hi, hs⟩ := h.phase.idle_of_not_granting quiet.not_granting
  refine { h with phase := .idle { hi with users := ?_ } hs, release_pending := ?_
                  evicting_idle := ?_ }
  · rcases hi.users with ⟨hl, -⟩ | ⟨-, hsh, hx, -⟩
    · omega
    · refine .inr ⟨lt, ?_, hx, fun _ => mode⟩
      simp only [Node.sharedUsers] at hsh ⊢
      omega
  · intro r hr hk
    have hp := (h.release_pending r hr hk).1
    simp [quiet.not_pending] at hp
  · intro he
    simp [quiet.not_evicting] at he

theorem NodeInv.lockLocalX (quiet : nd.lk.Quiet) (unused : nd.lk.lock = 0)
    (mode : nd.lk.remoteMode = .exclusive) :
    NodeInv a n { nd with
      lk := { nd.lk with lock := EXCLUSIVE_LOCKED }, writers := nd.writers + 1 } := by
  obtain ⟨hi, hs⟩ := h.phase.idle_of_not_granting quiet.not_granting
  obtain ⟨hr0, hw0, hrel⟩ := hi.users.unused unused
  refine { h with phase := .idle { hi with users := ?_ } hs, release_pending := ?_
                  evicting_idle := ?_ }
  · exact .inl ⟨rfl, by simp [Node.exclusiveUsers, hw0, hrel], by simp [Node.sharedUsers, hr0, hrel],
      mode⟩
  · simp [hrel]
  · intro he
    simp [quiet.not_evicting] at he

theorem NodeInv.lockAsk (quiet : nd.lk.Quiet) (unused : nd.lk.lock = 0)
    (x : Bool) (mode : nd.lk.remoteMode = .none ∨ nd.lk.remoteMode = .shared ∧ x = true) :
    NodeInv a n { nd with
      lk := { nd.lk with lock := if x then EXCLUSIVE_LOCKED else 1, isGranting := true }
      fetches := ⟨x, .asking⟩ :: nd.fetches, received := 0 } := by
  have hi := h.idle quiet.not_granting
  obtain ⟨hr0, hw0, hrel⟩ := hi.users.unused unused
  have hh := h.holds_of_quiet quiet.not_granting quiet.not_evicting
  refine { h with phase := ?_, release_pending := ?_, evicting_idle := ?_ }
  · exact .fetching (f := ⟨x, .asking⟩)
      { fetches := by simp [hi.fetches], granting := rfl, lock := rfl, readers := hr0
        writers := hw0, releases := hrel, mode := mode }
      (.waiting hi.grants hi.success hh (.inl ⟨rfl, hi.unqueued⟩))
  · simp [hrel]
  · intro he
    simp [quiet.not_evicting] at he

theorem NodeInv.setStage (mem : f ∈ nd.fetches) (hask : f.stage ≠ .asking)
    (hwait : f.stage ≠ .answered .waitLockRelease) (stage : FetchStage N)
    (hask' : stage ≠ .asking) (hwait' : stage ≠ .answered .waitLockRelease) :
    NodeInv a n (nd.setStage f stage) := by
  obtain ⟨ha, hp⟩ := h.fetch_of_mem mem
  have ha' : Asking (nd.setStage f stage) ⟨f.x, stage⟩ :=
    { ha with fetches := by simp [ha.fetches] }
  refine { h with phase := .fetching ha' ?_ }
  cases hp with
  | waiting _ _ _ hst =>
    rcases hst with ⟨hst, -⟩ | ⟨hst, -⟩
    · exact absurd hst hask
    · exact absurd hst hwait
  | served hg _ hn hk => exact .served hg hask' (by simpa [hwait, hwait'] using hn) hk

theorem NodeInv.gotLock (mem : f ∈ nd.fetches)
    (stage : f.stage = .answered .waitLockRelease) (success : nd.lk.successReturn = true) :
    NodeInv a n { nd.setStage f .granted with
      lk := { nd.lk with updateSuccess := false, needWait := false, successReturn := false } } := by
  obtain ⟨ha, hp⟩ := h.fetch_of_mem mem
  have ha' : Asking (nd.setStage f .granted) ⟨f.x, .granted⟩ :=
    { ha with fetches := by simp [ha.fetches] }
  refine { h with phase := .fetching { ha' with } ?_ }
  cases hp with
  | waiting _ hs => simp [hs] at success
  | served hg _ hn hk =>
    simp only [success, stage, ite_true, Bool.toNat_true] at hn
    exact .served hg (by simp) (by simpa using hn) hk

/-- With its pushes made, the call ends and the caller uses the page. -/
theorem NodeInv.fetchDone (mem : f ∈ nd.fetches)
    (stage : f.stage = .pushing []) :
    NodeInv a n { nd with
      lk := { nd.lk with
        remoteMode := if nd.lk.lock = EXCLUSIVE_LOCKED then .exclusive else .shared
        isGranting := false, isReleased := false }
      fetches := nd.fetches.erase f
      readers := if f.x then nd.readers else nd.readers + 1
      writers := if f.x then nd.writers + 1 else nd.writers } := by
  obtain ⟨ha, hp⟩ := h.fetch_of_mem mem
  have hev := h.evicts_nil_of_granting ha.granting
  cases hp with
  | waiting _ _ _ hst => simp [stage] at hst
  | served hg _ hn hk =>
    simp only [stage, reduceCtorEq, ite_false, Nat.add_eq_zero_iff, List.length_eq_zero_iff] at hn
    refine { h with phase := .idle ?_ ?_, giving_mode := ?_, release_pending := ?_
                    evicting_idle := ?_ }
    · refine { fetches := by simp [ha.fetches], granting := rfl, unqueued := hg.unqueued
               grants := hn.1, success := by simpa using hn.2, users := ?_ }
      cases hx : f.x with
      | true =>
        exact .inl ⟨by simp [ha.lock, hx], by simp [Node.exclusiveUsers, ha.writers, ha.releases],
          by simp [Node.sharedUsers, ha.readers, ha.releases], by simp [ha.lock, hx]⟩
      | false =>
        exact .inr ⟨by simp [ha.lock, hx], by simp [Node.sharedUsers, ha.readers, ha.releases,
          ha.lock, hx], by simp [Node.exclusiveUsers, ha.writers, ha.releases], by simp [ha.lock, hx]⟩
    · simp only [hev, List.any_nil, Bool.false_eq_true, ite_false]
      cases hx : f.x with
      | true => simpa [ha.lock, hx, Holds] using ⟨hg.holder, hx ▸ hg.excl⟩
      | false => simpa [ha.lock, hx, Holds] using ⟨hg.holder, hx ▸ hg.excl⟩
    · intro hgive
      have : nd.giving = 0 := hk
      simp only [Node.giving] at this hgive
      omega
    · simp [ha.releases]
    · intro he
      have := h.evicts_length
      simp [hev, show nd.lk.isEvicting = true from he] at this

end

variable {l : LRLocalPageLock N}

theorem sharedUnlockType_ne_zero : l.sharedUnlockType ≠ 0 ↔ l.lock = 1 ∧ l.isPending = true := by
  unfold LRLocalPageLock.sharedUnlockType
  by_cases h : l.lock = 1 ∧ l.isPending = true
  · simp only [h, and_self, ite_true, iff_true]
    split <;> decide
  · simp [h]

variable {lk : LRLocalPageLock N}

theorem NodeInv.releaseS (h : NodeInv a n nd) (reader : 0 < nd.readers)
    (not_x : nd.lk.lock ≠ EXCLUSIVE_LOCKED) (not_granting : nd.lk.isGranting = false)
    (hlk : lk = { nd.lk with isReleased := lk.isReleased, mutex := lk.mutex }) :
    NodeInv a n { nd with
      lk := lk, readers := nd.readers - 1
      releases := ⟨false, nd.lk.sharedUnlockType, none⟩ :: nd.releases } := by
  rw [hlk]
  obtain ⟨hi, hs⟩ := h.phase.idle_of_not_granting not_granting
  refine { h with phase := .idle { hi with users := ?_ } hs, release_pending := ?_ }
  · rcases hi.users with ⟨hl, -⟩ | ⟨hlt, hsh, hx, hm⟩
    · exact absurd hl not_x
    · refine .inr ⟨hlt, ?_, by simpa [Node.exclusiveUsers] using hx, hm⟩
      simp only [Node.sharedUsers, List.countP_cons, Bool.not_false, ite_true] at hsh ⊢
      omega
  · intro r hr hk
    rcases List.mem_cons.1 hr with rfl | hr
    · obtain ⟨hl, hp⟩ := sharedUnlockType_ne_zero.1 hk
      exact ⟨hp, fun _ => hl⟩
    · exact h.release_pending r hr hk

theorem NodeInv.releaseX (h : NodeInv a n nd) (writer : 0 < nd.writers)
    (not_granting : nd.lk.isGranting = false)
    (hlk : lk = { nd.lk with isReleased := lk.isReleased, mutex := lk.mutex }) :
    NodeInv a n { nd with
      lk := lk, writers := nd.writers - 1
      releases := ⟨true, if nd.lk.isPending then 2 else 0, none⟩ :: nd.releases } := by
  rw [hlk]
  obtain ⟨hi, hs⟩ := h.phase.idle_of_not_granting not_granting
  refine { h with phase := .idle { hi with users := ?_ } hs, release_pending := ?_ }
  · rcases hi.users with ⟨hl, hx, hsh, hm⟩ | ⟨-, -, hx, -⟩
    · refine .inl ⟨hl, ?_, by simpa [Node.sharedUsers] using hsh, hm⟩
      simp only [Node.exclusiveUsers, List.countP_cons, ite_true] at hx ⊢
      omega
    · simp only [Node.exclusiveUsers] at hx
      omega
  · intro r hr hk
    rcases List.mem_cons.1 hr with rfl | hr
    · exact ⟨by simpa using hk, nofun⟩
    · exact h.release_pending r hr hk

theorem NodeInv.releaseStage (h : NodeInv a n nd) (mem : r ∈ nd.releases) (pushed : Option Bool) :
    NodeInv a n { nd with releases := { r with pushed := pushed } :: nd.releases.erase r } := by
  obtain ⟨hi, hs⟩ := h.phase.idle_of_not_granting (h.phase.not_granting_of_release mem)
  refine { h with phase := .idle { hi with users := ?_ } hs, release_pending := ?_ }
  · have hx : ∀ p : Release → Bool, p { r with pushed := pushed } = p r →
        ({ r with pushed := pushed } :: nd.releases.erase r).countP p = nd.releases.countP p :=
      fun p hp => countP_replace mem hp
    simpa [Node.Users, Node.sharedUsers, Node.exclusiveUsers, hx (fun r => r.x) rfl,
      hx (fun r => !r.x) rfl] using hi.users
  · intro r' hr' hk
    rcases List.mem_cons.1 hr' with rfl | hr'
    · exact h.release_pending r mem hk
    · exact h.release_pending r' (List.mem_of_mem_erase hr') hk

theorem unlockExclusive_eq :
    l.unlockExclusive = { l with
      lock := 0, isPending := false
      remoteMode := if l.isPending then .none else l.remoteMode } := by
  cases hp : l.isPending <;> simp [LRLocalPageLock.unlockExclusive, hp]

/-- The local lock after the release `r`, apart from the mutex and the push. -/
structure Release.Unlocked (r : Release) (lk lk' : LRLocalPageLock N) : Prop where
  /-- The lock word counts one user less. -/
  lock : lk'.lock = if r.x then 0 else lk.lock - 1
  /-- The last user clears the request for the page, -/
  pending : lk'.isPending = (lk.isPending && lk'.lock ≠ 0)
  /-- and with it the mode. -/
  mode : lk'.remoteMode = if lk.isPending = true ∧ lk'.lock = 0 then .none else lk.remoteMode
  /-- Nothing else changes that the node invariant mentions. -/
  rest : lk' = { lk with
    lock := lk'.lock, isPending := lk'.isPending, remoteMode := lk'.remoteMode
    destNodeId := lk'.destNodeId, mutex := lk'.mutex }

theorem Release.unlocked_unlock (r : Release) (b : Bool) (lk : LRLocalPageLock N) :
    r.Unlocked lk (r.unlock b lk) := by
  cases hx : r.x with
  | true =>
    cases b <;> cases hp : lk.isPending <;>
      constructor <;> simp [hx, unlockExclusive_eq, hp]
  | false =>
    by_cases hc : lk.lock - 1 = 0 ∧ lk.isPending = true
    · cases b <;> constructor <;>
        simp [hx, LRLocalPageLock.unlockShared, hc]
    · have hc' : lk.isPending = true → lk.lock - 1 ≠ 0 := fun hp h0 => hc ⟨h0, hp⟩
      cases hp : lk.isPending <;> cases b <;> constructor <;>
        simp [hx, LRLocalPageLock.unlockShared, hp, hc']

theorem Release.Unlocked.mode_ne {lk' : LRLocalPageLock N} (h : r.Unlocked lk lk')
    (hm : lk'.remoteMode ≠ .none) : lk.remoteMode ≠ .none := by
  rw [h.mode] at hm
  split at hm
  · exact absurd rfl hm
  · exact hm

theorem Node.Users.lock_ne_zero (h : nd.Users) (hr : r ∈ nd.releases) : nd.lk.lock ≠ 0 := by
  cases hx : r.x with
  | true => simp [(h.of_exclusive_release hr hx).1]
  | false =>
    obtain ⟨-, hl, -, -, hpos⟩ := h.of_shared_release hr hx
    simp only [Node.sharedUsers] at hl
    omega

variable {unlocks : List UnlockCall}

theorem Node.Users.release (h : nd.Users) (hr : r ∈ nd.releases) (hu : r.Unlocked nd.lk lk) :
    ({ nd with lk := lk, releases := nd.releases.erase r, unlocks := unlocks } : Node N α).Users := by
  cases hx : r.x with
  | true =>
    obtain ⟨-, hw, hrd, hrel⟩ := h.of_exclusive_release hr hx
    have hl : lk.lock = 0 := by simp [hu.lock, hx]
    refine .inr ⟨by simp [hl], ?_, ?_, fun h0 => absurd hl h0⟩
    · simp [Node.sharedUsers, hl, hrd, hrel]
    · simp [Node.exclusiveUsers, hw, hrel]
  | false =>
    obtain ⟨hlt, hl, hxu, hm, hpos⟩ := h.of_shared_release hr hx
    have hl' : lk.lock = nd.lk.lock - 1 := by simp [hu.lock, hx]
    have hS := countP_erase_add (fun r : Release => !r.x) hr
    have hX := countP_erase_add (fun r : Release => r.x) hr
    simp only [hx, Bool.not_false, ite_true, Bool.false_eq_true, ite_false, Nat.add_zero] at hS hX
    simp only [Node.sharedUsers, Node.exclusiveUsers] at hl hxu
    refine .inr ⟨by simp only; omega, ?_, ?_, fun h0 => ?_⟩
    · simp only [Node.sharedUsers]
      omega
    · simp only [Node.exclusiveUsers]
      omega
    · have h0' : lk.lock ≠ 0 := h0
      simpa [hu.mode, h0'] using hm

theorem NodeInv.release_alone (h : NodeInv a n nd) {r' : Release} (hr : r ∈ nd.releases)
    (hr' : r' ∈ nd.releases.erase r) : r'.unlockRemote = 0 := by
  have hi := h.idle_of_release hr
  by_contra hk
  have hmem := List.mem_of_mem_erase hr'
  cases hx : r.x with
  | true =>
    obtain ⟨-, -, -, hrel⟩ := hi.users.of_exclusive_release hr hx
    simp [hrel] at hr'
  | false =>
    obtain ⟨-, hl, hxu, -, -⟩ := hi.users.of_shared_release hr hx
    have hx' : r'.x = false := by
      by_contra hx'
      obtain ⟨-, -, -, hrel⟩ := hi.users.of_exclusive_release hmem (by simpa using hx')
      rw [hrel, List.mem_singleton] at hr
      simp [← hr, hx] at hx'
    have hone := (h.release_pending r' hmem hk).2 hx'
    have hpos : 0 < (nd.releases.erase r).countP fun r => !r.x :=
      List.countP_pos_iff.2 ⟨r', hr', by simp [hx']⟩
    have hS := countP_erase_add (fun r : Release => !r.x) hr
    simp only [hx, Bool.not_false, ite_true] at hS
    simp only [Node.sharedUsers] at hl
    omega

/-- A release that gives the lock up makes the unlock call. -/
theorem NodeInv.releaseUnlock (h : NodeInv a n nd) (mem : r ∈ nd.releases)
    (hu : r.Unlocked nd.lk lk)
    (hcall : unlocks = if r.unlockRemote = 0 then nd.unlocks else ⟨true, false⟩ :: nd.unlocks) :
    NodeInv a n { nd with lk := lk, releases := nd.releases.erase r, unlocks := unlocks } := by
  obtain ⟨hi, hs⟩ := h.phase.idle_of_not_granting (h.phase.not_granting_of_release mem)
  have hl0 := hi.users.lock_ne_zero mem
  have hev := h.not_evicting hl0
  have hholds := h.holds_of_quiet hi.granting hev
  have hpended : nd.lk.isPending = true → Pended a n := fun hp =>
    h.duties_pended (by simp only [Node.duties, hp, Bool.toNat_true]; omega)
  have hmode : nd.lk.remoteMode ≠ .none := fun hm => hl0 (hi.users.lock_eq_zero hm)
  have hgive0 : nd.giving = 0 := by
    by_contra hg
    exact hmode (h.giving_mode (Nat.pos_of_ne_zero hg))
  -- a release that calls the directory has been asked for the page and is the last user
  have hlast : r.unlockRemote ≠ 0 → nd.lk.isPending = true ∧ lk.lock = 0 := by
    intro hk
    obtain ⟨hp, hone⟩ := h.release_pending r mem hk
    refine ⟨hp, ?_⟩
    cases hx : r.x with
    | true => simp [hu.lock, hx]
    | false => simp [hu.lock, hx, hone hx]
  have hgive : ({ nd with lk := lk, releases := nd.releases.erase r, unlocks := unlocks } :
      Node N α).giving = if r.unlockRemote = 0 then 0 else 1 := by
    have : nd.giving = 0 := hgive0
    simp only [Node.giving, hcall] at this ⊢
    split
    · exact this
    · simp only [List.countP_cons, Bool.not_false, ite_true]
      omega
  have hduties : ({ nd with lk := lk, releases := nd.releases.erase r, unlocks := unlocks } :
      Node N α).duties ≤ nd.duties := by
    simp only [Node.duties, hgive, hgive0, hu.pending]
    by_cases hk : r.unlockRemote = 0
    · have hle : (nd.lk.isPending && decide (lk.lock ≠ 0)).toNat ≤ nd.lk.isPending.toNat := by
        cases nd.lk.isPending <;> simp [Bool.toNat_le]
      simpa [hk] using hle
    · obtain ⟨hp, hlz⟩ := hlast hk
      simp [hk, hp, hlz]
  refine
    { phase := .idle ⟨hi.fetches, by rw [hu.rest]; exact hi.granting, hi.unqueued, hi.grants,
        by rw [hu.rest]; exact hi.success, hi.users.release mem hu⟩ ?_
      duties_le := hduties.trans h.duties_le
      duties_pended := fun hpos => h.duties_pended (hpos.trans_le hduties)
      pending_excl := h.pending_excl
      giving_mode := ?_
      release_pending := fun r' hr' hk => absurd (h.release_alone mem hr') hk
      evicts_length := by rw [hu.rest]; exact h.evicts_length
      evicting_idle := ?_ }
  · simp only [h.evicts_nil hev, List.any_nil, Bool.false_eq_true, ite_false]
    rw [hu.mode]
    split
    · rename_i hc
      exact fun _ => hpended hc.1
    · exact hholds
  · intro hpos
    rw [hgive] at hpos
    have hk : r.unlockRemote ≠ 0 := by
      intro hk
      simp [hk] at hpos
    obtain ⟨hp, hlz⟩ := hlast hk
    simp [hu.mode, hp, hlz]
  · intro he
    have he' : lk.isEvicting = true := he
    rw [hu.rest] at he'
    simp [hev] at he'

theorem giving_cons_handler (nd : Node N α) (k : Nat) (dest : Option (NodeId N))
    (lk : LRLocalPageLock N) (pendings : List (PendingRequest N)) :
    ({ nd with lk := lk, pendings := pendings, handlers := ⟨k, dest⟩ :: nd.handlers } :
      Node N α).giving = nd.giving + if 0 < k then 1 else 0 := by
  simp only [Node.giving, List.countP_cons, decide_eq_true_eq]
  omega

section

variable (h : NodeInv a n nd)
include h

/-- A pending request is answered at once or left to the last user. -/
theorem NodeInv.pending {p : PendingRequest N} (mem : p ∈ nd.pendings)
    (not_pending : nd.lk.isPending = false) {k : Nat} (case : nd.lk.PendingCase p.xpending lk k) :
    NodeInv a n { nd with
      lk := lk, pendings := nd.pendings.erase p, handlers := ⟨k, p.dest⟩ :: nd.handlers } := by
  have hlen := length_erase_add mem
  have hle := h.duties_le
  simp only [Node.duties, not_pending, Bool.toNat_false] at hle
  have hpended : Pended a n := h.duties_pended (by simp only [Node.duties]; omega)
  have hgive := giving_cons_handler nd k p.dest lk (nd.pendings.erase p)
  have hexcl : ∀ q ∈ nd.pendings.erase p, q.xpending = a.excl := fun q hq =>
    h.pending_excl q (List.mem_of_mem_erase hq)
  have hrel : ∀ r ∈ nd.releases, r.unlockRemote = 0 := by
    intro r hr
    by_contra hk
    simp [(h.release_pending r hr hk).1] at not_pending
  cases case with
  | unused hg hm hl hk =>
    obtain ⟨hi, hs⟩ := h.phase.idle_of_not_granting hg
    have hd : ∀ lk' : LRLocalPageLock N, lk'.isPending = false →
        ({ nd with lk := lk', pendings := nd.pendings.erase p,
                   handlers := ⟨k, p.dest⟩ :: nd.handlers } : Node N α).duties ≤ 1 := by
      intro lk' hp'
      simp only [Node.duties, hp', Bool.toNat_false, giving_cons_handler, hk, ite_true]
      omega
    refine { phase := .idle { hi with users := ?_ } ?_, duties_le := hd _ not_pending
             duties_pended := fun _ => hpended, pending_excl := hexcl, giving_mode := fun _ => rfl
             release_pending := fun r hr hr0 => absurd (hrel r hr) hr0
             evicts_length := h.evicts_length, evicting_idle := h.evicting_idle }
    · rcases hi.users with ⟨hl', -⟩ | ⟨hlt, hsh, hx, -⟩
      · simp [hl] at hl'
      · exact .inr ⟨hlt, hsh, hx, fun h0 => absurd hl h0⟩
    · split at hs
      · exact absurd hpended.1 hs
      · rename_i hpast
        simp only [hpast]
        exact fun _ => hpended
  | used hg hm hl =>
    obtain ⟨hi, hs⟩ := h.phase.idle_of_not_granting hg
    refine { phase := .idle { hi with } hs, duties_le := ?_, duties_pended := fun _ => hpended
             pending_excl := hexcl, giving_mode := fun hpos => h.giving_mode ?_
             release_pending := fun r hr hr0 => absurd (hrel r hr) hr0
             evicts_length := h.evicts_length
             evicting_idle := fun he => absurd (h.evicting_idle he).1 hl }
    · simp only [Node.duties, giving_cons_handler, Bool.toNat_true, Nat.lt_irrefl, ite_false]
      omega
    · simpa [giving_cons_handler] using hpos
  | upgrading hg hm hl hx =>
    cases hphase : h.phase with
    | idle hi => simp [hi.granting] at hg
    | fetching ha hp =>
      refine { phase := .fetching { ha with mode := .inl rfl } ?_, duties_le := ?_
               duties_pended := fun _ => hpended
               pending_excl := hexcl, giving_mode := fun _ => rfl
               release_pending := fun r hr hr0 => absurd (hrel r hr) hr0
               evicts_length := h.evicts_length, evicting_idle := h.evicting_idle }
      · cases hp with
        | waiting hgr hsu _ hst => exact .waiting hgr hsu (fun _ => hpended) hst
        | served hgr =>
          -- a granted upgrade is exclusive, and then the request would have said so
          have hxf := ha.mode
          rw [hm] at hxf
          have hxt : a.excl = true := by simpa [hgr.excl] using hxf
          simp [h.pending_excl p mem, hxt] at hx
      · simp only [Node.duties, giving_cons_handler, LRLocalPageLock.takeMtx, not_pending,
          Bool.toNat_false, Nat.lt_one_iff, ite_true]
        omega
  | granting hg hm =>
    cases hphase : h.phase with
    | idle hi => simp [hi.granting] at hg
    | fetching ha hp =>
      refine { phase := .fetching { ha with } ?_, duties_le := ?_
               duties_pended := fun _ => hpended
               pending_excl := hexcl, giving_mode := fun hpos => h.giving_mode ?_
               release_pending := fun r hr hr0 => absurd (hrel r hr) hr0
               evicts_length := h.evicts_length
               evicting_idle := fun he => ?_ }
      · cases hp with
        | waiting hgr hsu hh hst => exact .waiting hgr hsu hh hst
        | served hgr hst hn hk => exact .served hgr hst hn (by simpa [giving_cons_handler] using hk)
      · simp only [Node.duties, giving_cons_handler, Bool.toNat_true, Nat.lt_irrefl, ite_false]
        omega
      · simpa [giving_cons_handler] using hpos
      · have := (h.evicting_idle he).2.1
        simp [hg] at this

/-- The duty to tell the directory moves from one thread to another. -/
theorem NodeInv.handOver (handlers : List (PendingHandler N))
    (unlocks : List UnlockCall)
    (hgive : ({ nd with handlers := handlers, unlocks := unlocks } : Node N α).giving = nd.giving) :
    NodeInv a n { nd with handlers := handlers, unlocks := unlocks } := by
  have hduties : ({ nd with handlers := handlers, unlocks := unlocks } : Node N α).duties =
      nd.duties := by
    simp only [Node.duties, hgive]
  refine { h with phase := ?_, duties_le := hduties ▸ h.duties_le
                  duties_pended := fun hpos => h.duties_pended (hduties ▸ hpos)
                  giving_mode := fun hpos => h.giving_mode (hgive ▸ hpos) }
  cases h.phase with
  | idle hi hs => exact .idle { hi with } hs
  | fetching ha hp =>
    refine .fetching { ha with } ?_
    cases hp with
    | waiting hg hs hh hst => exact .waiting hg hs hh hst
    | served hg hst hn hk => exact .served hg hst hn (hgive.trans hk)

theorem NodeInv.lockSuccess {g : LockSuccessRequest N} (mem : g ∈ nd.grants) :
    NodeInv a n { nd with lk := g.notify nd.lk, grants := nd.grants.erase g } := by
  refine { h with phase := ?_ }
  have hlen := length_erase_add mem
  cases h.phase with
  | idle hi => simp [hi.grants] at mem
  | fetching ha hp =>
    refine .fetching { ha with } ?_
    cases hp with
    | waiting hg => simp [hg] at mem
    | served hg hst hn hk =>
      refine .served hg hst ?_ hk
      simp only [LockSuccessRequest.notify, Bool.toNat_true]
      split at hn <;> rename_i hw
      · simp only [hw, ite_true]
        omega
      · omega

theorem NodeInv.beginEvict (quiet : nd.lk.Quiet) (unused : nd.lk.lock = 0) :
    NodeInv a n { nd with
      lk := { nd.lk with isEvicting := true }, evicts := .chosen :: nd.evicts } := by
  obtain ⟨hi, hs⟩ := h.phase.idle_of_not_granting quiet.not_granting
  have hev := h.evicts_nil quiet.not_evicting
  refine { h with phase := .idle { hi with } ?_, evicts_length := by simp [hev]
                  evicting_idle := fun _ => ⟨unused, quiet.not_granting, quiet.not_pending⟩ }
  simpa [hev, Evict.past] using hs

theorem NodeInv.setEvict {e : Evict} (mem : e ∈ nd.evicts) (e' : Evict)
    (hpast : e'.past = e.past) : NodeInv a n { nd with evicts := e' :: nd.evicts.erase e } := by
  obtain ⟨heq, hev⟩ := h.evicts_eq mem
  obtain ⟨hi, hs⟩ := h.phase.idle_of_not_granting (h.evicting_idle hev).2.1
  refine { h with phase := .idle { hi with } ?_, evicts_length := by simp [heq, hev] }
  simpa [heq, hpast] using hs

theorem NodeInv.evictDone (mem : .replaced ∈ nd.evicts) :
    NodeInv a n { nd with
      lk := { nd.lk with remoteMode := .none, isReleased := true }
      evicts := .ending :: nd.evicts.erase .replaced } := by
  obtain ⟨heq, hev⟩ := h.evicts_eq mem
  have hi := h.idle_of_evict mem
  have hgone := h.left_of_past mem rfl
  refine { h with phase := .idle { hi with users := ?_ } ?_, giving_mode := fun _ => rfl
                  evicts_length := by simp [heq, hev] }
  · obtain ⟨hr, hw, hrel⟩ := hi.users.unused (h.evicting_idle hev).1
    have hl := (h.evicting_idle hev).1
    exact .inr ⟨by simp [hl], by simp [Node.sharedUsers, hl, hr, hrel],
      by simp [Node.exclusiveUsers, hw, hrel], fun h0 => absurd hl h0⟩
  · simpa [heq, Evict.past, Holds] using fun hn => absurd hn hgone

theorem NodeInv.endEvict (mem : .ending ∈ nd.evicts) :
    NodeInv a n { nd with
      lk := { nd.lk with isEvicting := false }, evicts := nd.evicts.erase .ending } := by
  obtain ⟨heq, hev⟩ := h.evicts_eq mem
  obtain ⟨hi, hs⟩ := h.phase.idle_of_not_granting (h.evicting_idle hev).2.1
  refine { h with phase := .idle { hi with } ?_, evicts_length := by simp [heq]
                  evicting_idle := nofun }
  simpa [heq, Evict.past] using hs

end

end Local

end LazyRelease
