import HybridCloud.BufferPool.OwnerNode
import HybridCloud.Dtx.Proofs.RowRedo

/-!
# What a step of a page's owner can do

`OwnerNode.Step` lists the completed steps, each with its guard and the state that it leads to.
-/

namespace BufferPool

open Outcome Storage

/-- The page and its log after a caller's work; `lsn` is what the caller hands to `set_newest_lsn`. -/
inductive Worked (st st' : Dtx.State) : Option Nat → Prop where
  | unlogged (records : st'.records = st.records) (llsn : st'.page.hdr.llsn = st.page.hdr.llsn) :
    Worked st st' none
  | logged {log : LogRecord} (records : st'.records = st.records ++ [log])
    (newer : st.page.hdr.llsn < log.lsn) (llsn : st'.page.hdr.llsn = log.lsn) :
    Worked st st' (some log.lsn)

section Work

variable {tab : Dtx.Table} {me slotNo startTs holderNode : Nat} {st st' st₁ : Dtx.State}
  {r : Option Nat}

theorem worked_of_addLog {body : LogBody} (h : st₁.addLog me body = .next st')
    (hrecords : st₁.records = st.records) (hllsn : st₁.page.hdr.llsn = st.page.hdr.llsn) :
    Worked st st' (some st'.page.hdr.llsn) := by
  obtain ⟨log, -, -, hnewer, hlog, -, hpage⟩ := Dtx.addLog_eq_next h
  have hlsn : st'.page.hdr.llsn = log.lsn := by
    rw [hpage]
    rfl
  rw [hlsn]
  exact .logged (hrecords ▸ hlog) (hllsn ▸ hnewer) hlsn

theorem lockTuple_worked {touch : DataItem → DataItem}
    (h : lockTuple tab me st slotNo startTs holderNode touch = .next (st', r)) :
    Worked st st' r := by
  simp only [lockTuple] at h
  split at h
  · simp only [bind_eq_next] at h
    obtain ⟨st₁, hlog, h⟩ := h
    obtain ⟨rfl, rfl⟩ := Prod.mk.inj (next.inj h)
    exact worked_of_addLog hlog rfl rfl
  · split at h <;> obtain ⟨rfl, rfl⟩ := Prod.mk.inj (next.inj h) <;> exact .unlogged rfl rfl

theorem unlockTuple_worked {addr : UInt64} {u : Unlock}
    (h : unlockTuple tab me st addr slotNo u = .next (st', r)) : Worked st st' r := by
  simp only [unlockTuple, bind_eq_next, cassert_eq_next] at h
  obtain ⟨_, -, _, -, _, -, item, -, st₁, hlog, h⟩ := h
  obtain ⟨rfl, rfl⟩ := Prod.mk.inj (next.inj h)
  exact worked_of_addLog hlog rfl rfl

end Work

namespace LocalPageLock

variable {l l' : LocalPageLock}

theorem lockShared_eq_next (h : l.lockShared = .next l') :
    l.mutex.held = false ∧ l.isEvicting = false ∧ l.lock + 1 < GPLM.EXCLUSIVE_LOCKED ∧
      l' = { l with lock := l.lock + 1, mutex := { l.mutex with held := true } } := by
  simp only [lockShared, bind_eq_next, await_eq_next, Mutex.lock_eq_next] at h
  obtain ⟨_, ⟨hfree, rfl⟩, _, ⟨hev, -⟩, _, hlt, h⟩ := h
  exact ⟨hfree, hev, hlt, (next.inj h).symm⟩

theorem lockExclusive_eq_next (h : l.lockExclusive = .next l') :
    l.mutex.held = false ∧ l.isEvicting = false ∧ l.lock = 0 ∧
      l' = { l with lock := GPLM.EXCLUSIVE_LOCKED, mutex := { l.mutex with held := true } } := by
  simp only [lockExclusive, bind_eq_next, await_eq_next, Mutex.lock_eq_next] at h
  obtain ⟨_, ⟨hfree, rfl⟩, _, hok, h⟩ := h
  have hev : l.isEvicting = false := by
    cases hev : l.isEvicting with
    | false => rfl
    | true => exact absurd (.inr hev) hok
  exact ⟨hfree, hev, by_contra fun hl => hok (.inl hl), (next.inj h).symm⟩

/-- Unlock functions return with the mutex taken; the caller lets it go. -/
theorem unlockShared_eq_next (h : l.unlockShared = .next l') :
    l.mutex.held = false ∧ 0 < l.lock ∧ l'.lock = l.lock - 1 ∧
      l'.unlockMtx = { l with lock := l.lock - 1 } := by
  simp only [unlockShared, bind_eq_next, cassert_eq_next, Mutex.lock_eq_next] at h
  obtain ⟨_, ⟨hfree, rfl⟩, _, hpos, h⟩ := h
  obtain rfl := next.inj h
  refine ⟨hfree, hpos, rfl, ?_⟩
  simp only [unlockMtx, Mutex.unlock_of_relock hfree]

theorem unlockExclusive_eq_next (h : l.unlockExclusive = .next l') :
    l.mutex.held = false ∧ l.lock = GPLM.EXCLUSIVE_LOCKED ∧ l'.lock = 0 ∧
      l'.unlockMtx = { l with lock := 0 } := by
  simp only [unlockExclusive, bind_eq_next, cassert_eq_next, Mutex.lock_eq_next] at h
  obtain ⟨_, ⟨hfree, rfl⟩, _, hlock, h⟩ := h
  obtain rfl := next.inj h
  refine ⟨hfree, hlock, rfl, ?_⟩
  simp only [unlockMtx, Mutex.unlock_of_relock hfree]

theorem tryBeginEvict_eq_next {ok : Bool} (h : l.tryBeginEvict = .next (l', ok)) :
    l.mutex.held = false ∧ if ok then l.isEvicting = false ∧ l.lock = 0 ∧
      l' = { l with isEvicting := true } else l' = l := by
  simp only [tryBeginEvict, bind_eq_next, await_eq_next] at h
  obtain ⟨_, hfree, h⟩ := h
  refine ⟨hfree, ?_⟩
  split at h
  · obtain ⟨rfl, rfl⟩ := Prod.mk.inj (next.inj h)
    simp
  · rename_i hnot
    split at h <;> obtain ⟨rfl, rfl⟩ := Prod.mk.inj (next.inj h)
    · rename_i hlock
      have hev : l.isEvicting = false := by
        cases hev : l.isEvicting with
        | false => rfl
        | true => exact absurd (.inl hev) hnot
      simp [hev, hlock]
    · simp

theorem endEvict_eq_next (h : l.endEvict = .next l') :
    l.mutex.held = false ∧ l.isEvicting = true ∧ l' = { l with isEvicting := false } := by
  simp only [endEvict, bind_eq_next, await_eq_next, cassert_eq_next] at h
  obtain ⟨_, hfree, _, hev, h⟩ := h
  exact ⟨hfree, hev, (next.inj h).symm⟩

end LocalPageLock

namespace OwnerNode

variable {tab : Dtx.Table} {me : Nat} {s s' : OwnerNode}

/-- What a step can do. -/
inductive Step (me : Nat) (s : OwnerNode) : OwnerNode → Prop where
  | call (v : Visit) (vs : List Visit) :
    Step me s { s with threads := s.threads ++ [{ visit := v, rest := vs, stage := .idle }] }
  | skip : Step me s s
  | lockShared {i : Nat} {t : Thread} {l : LocalPageLock} (hi : s.threads[i]? = some t)
    (stage : t.stage = .idle) (shared : t.visit.exclusive = false)
    (taken : (s.locks t.page).lockShared = .next l) :
    Step me s ((s.setLock t.page l).setStage i t .locked)
  | lockExclusive {i : Nat} {t : Thread} {l : LocalPageLock} (hi : s.threads[i]? = some t)
    (stage : t.stage = .idle) (exclusive : t.visit.exclusive = true)
    (taken : (s.locks t.page).lockExclusive = .next l) :
    Step me s ((s.setLock t.page l).setStage i t .locked)
  | found {i : Nat} {t : Thread} {f : FrameId} {pool : Pool} (hi : s.threads[i]? = some t)
    (stage : t.stage = .locked) (table : s.pool.pageTable t.page = some f)
    (taken : s.pool.fetchPage t.page = .next pool) :
    Step me s ({ s with pool := pool }.setStage i t (.found f))
  | missing {i : Nat} {t : Thread} (hi : s.threads[i]? = some t) (stage : t.stage = .locked)
    (table : s.pool.pageTable t.page = none) :
    Step me s (s.setStage i t (.fetching (s.locks t.page).newestLsn))
  | readStorage {i : Nat} {t : Thread} {lsn : Nat} {image : Page} (hi : s.threads[i]? = some t)
    (stage : t.stage = .fetching lsn) (le : lsn ≤ image.hdr.llsn)
    (known : image.hdr.llsn = s.stored t.page ∨ ∃ r ∈ s.records t.page, r.lsn = image.hdr.llsn) :
    Step me s (s.setStage i t (.checking image))
  | checkFree {i : Nat} {t : Thread} {image : Page} {pool : Pool} {frame : Option FrameId}
    (hi : s.threads[i]? = some t) (stage : t.stage = .checking image)
    (taken : s.pool.checkIfDirectlyPutInBuffer t.page = .next (pool, frame)) :
    Step me s ({ s with pool := pool }.setStage i t
      (frame.elim (.choosing image) (.reserved image)))
  | insertFree {i : Nat} {t : Thread} {image : Page} {f : FrameId} {pool : Pool}
    (hi : s.threads[i]? = some t) (stage : t.stage = .reserved image f)
    (taken : s.pool.insertOrReplace t.page f none = .next pool) :
    Step me s ({ s with pool := pool, images := Function.update s.images f image }.setStage i t
      (.found f))
  | startProbe {i start : Nat} {t : Thread} {image : Page} (hi : s.threads[i]? = some t)
    (stage : t.stage = .choosing image) : Step me s (s.setStage i t (.probing image start 0))
  | probeNext {i start k : Nat} {t : Thread} {image : Page} (hi : s.threads[i]? = some t)
    (stage : t.stage = .probing image start k) :
    Step me s (s.setStage i t (.probing image start (k + 1)))
  | pick {i start k j : Nat} {t : Thread} {image : Page} {f : FrameId} (hi : s.threads[i]? = some t)
    (stage : t.stage = .probing image start k) (probe : s.pool.replacer.probe j = some f) :
    Step me s ({ s with pool := { s.pool with replacer := s.pool.replacer.choose f } }.setStage i t
      (.picked image f))
  | readVictim {i : Nat} {t : Thread} {image : Page} {f : FrameId} {victim : PageId}
    (hi : s.threads[i]? = some t) (stage : t.stage = .picked image f)
    (frame : (s.pool.pages f).pageId = some victim) :
    Step me s (s.setStage i t (.read image f victim))
  | readNone {i : Nat} {t : Thread} {image : Page} {f : FrameId} (hi : s.threads[i]? = some t)
    (stage : t.stage = .picked image f) : Step me s (s.setStage i t (.giveUp image f))
  | win {i : Nat} {t : Thread} {image : Page} {f : FrameId} {victim : PageId} {l : LocalPageLock}
    (hi : s.threads[i]? = some t) (stage : t.stage = .read image f victim)
    (taken : (s.locks victim).tryBeginEvict = .next (l, true)) :
    Step me s ((s.setLock victim l).setStage i t (.won image f victim))
  | fail {i : Nat} {t : Thread} {image : Page} {f : FrameId} {victim : PageId}
    (hi : s.threads[i]? = some t) (stage : t.stage = .read image f victim) :
    Step me s (s.setStage i t (.giveUp image f))
  | endVictimFalse {i : Nat} {t : Thread} {image : Page} {f : FrameId} (hi : s.threads[i]? = some t)
    (stage : t.stage = .giveUp image f) :
    Step me s ({ s with pool := { s.pool with
      replacer := s.pool.replacer.endVictim false f } }.setStage i t (.choosing image))
  | endVictimTrue {i : Nat} {t : Thread} {image : Page} {f : FrameId} {victim : PageId}
    (hi : s.threads[i]? = some t) (stage : t.stage = .won image f victim) :
    Step me s ({ s with pool := { s.pool with
      replacer := s.pool.replacer.endVictim true f } }.setStage i t (.begun image f victim))
  | lose {i : Nat} {t : Thread} {image : Page} {f : FrameId} {victim : PageId}
    (hi : s.threads[i]? = some t) (stage : t.stage = .begun image f victim) :
    Step me s (s.setStage i t (.lost image victim))
  | choose {i : Nat} {t : Thread} {image : Page} {f : FrameId} {victim : PageId}
    (hi : s.threads[i]? = some t) (stage : t.stage = .begun image f victim) :
    Step me s (s.setStage i t (.chosen image f victim))
  | fetchVictim {i : Nat} {t : Thread} {image : Page} {f : FrameId} {victim : PageId} {pool : Pool}
    (hi : s.threads[i]? = some t) (stage : t.stage = .chosen image f victim)
    (taken : s.pool.fetchPage victim = .next pool) :
    Step me s ({ s with pool := pool }.setStage i t (.pinned image f victim))
  | replace {i : Nat} {t : Thread} {image : Page} {f : FrameId} {victim : PageId} {pool : Pool}
    (hi : s.threads[i]? = some t) (stage : t.stage = .pinned image f victim)
    (taken : s.pool.insertOrReplace t.page f (some victim) = .next pool) :
    Step me s ({ s with pool := pool, images := Function.update s.images f image }.setStage i t
      (.replaced f victim))
  | retry {i : Nat} {t : Thread} {image : Page} {victim : PageId} {l : LocalPageLock}
    (hi : s.threads[i]? = some t) (stage : t.stage = .lost image victim)
    (taken : (s.locks victim).endEvict = .next l) :
    Step me s ((s.setLock victim l).setStage i t (.choosing image))
  | endEvict {i : Nat} {t : Thread} {f : FrameId} {victim : PageId} {l : LocalPageLock}
    (hi : s.threads[i]? = some t) (stage : t.stage = .replaced f victim)
    (taken : (s.locks victim).endEvict = .next l) :
    Step me s ((s.setLock victim l).setStage i t (.found f))
  | unlockMtx {i : Nat} {t : Thread} {f : FrameId} (hi : s.threads[i]? = some t)
    (stage : t.stage = .found f) :
    Step me s ((s.setLock t.page (s.locks t.page).unlockMtx).setStage i t (.holding f))
  | inspect {i : Nat} {t : Thread} {f : FrameId} {stop : Bool} (hi : s.threads[i]? = some t)
    (stage : t.stage = .holding f) : Step me s (s.setStage i t (.done f stop))
  | work {i : Nat} {t : Thread} {f : FrameId} {st : Dtx.State} {lsn : Option Nat}
    (hi : s.threads[i]? = some t) (stage : t.stage = .holding f)
    (exclusive : t.visit.exclusive = true) (worked : Worked (s.inHand t.page f) st lsn) :
    Step me s ((s.worked me t.page f st).setStage i t (lsn.elim (.done f false) (.logged f)))
  | setNewestLsn {i : Nat} {t : Thread} {f : FrameId} {lsn : Nat} (hi : s.threads[i]? = some t)
    (stage : t.stage = .logged f lsn) :
    Step me s ((s.setLock t.page { s.locks t.page with newestLsn := lsn }).setStage i t
      (.done f false))
  | releaseShared {i : Nat} {t : Thread} {f : FrameId} {stop : Bool} {r : List Visit}
    {l : LocalPageLock} {pool : Pool} (hi : s.threads[i]? = some t) (stage : t.stage = .done f stop)
    (shared : t.visit.exclusive = false) (taken : (s.locks t.page).unlockShared = .next l)
    (unpin : (if l.lock = 0 then s.pool.unpinPage t.page else .next s.pool) = .next pool) :
    Step me s ({ s.setLock t.page l.unlockMtx with pool := pool }.setStage i { t with rest := r }
      .left)
  | releaseExclusive {i : Nat} {t : Thread} {f : FrameId} {stop : Bool} {r : List Visit}
    {l : LocalPageLock} {pool : Pool} (hi : s.threads[i]? = some t) (stage : t.stage = .done f stop)
    (exclusive : t.visit.exclusive = true) (taken : (s.locks t.page).unlockExclusive = .next l)
    (unpin : (if l.lock = 0 then s.pool.unpinPage t.page else .next s.pool) = .next pool) :
    Step me s ({ s.setLock t.page l.unlockMtx with pool := pool }.setStage i { t with rest := r }
      .left)
  | next {i : Nat} {t : Thread} {v : Visit} {vs : List Visit} (hi : s.threads[i]? = some t)
    (stage : t.stage = .left) :
    Step me s { s with threads := s.threads.set i { visit := v, rest := vs, stage := .idle } }
  | addMetadataLog : Step me s { s with currentLLSN := s.currentLLSN + 1 }

theorem thread_eq_next {i : Nat} {t : Thread} : s.thread i = .next t ↔ s.threads[i]? = some t := by
  unfold thread
  cases s.threads[i]? <;> simp

theorem exists_thread {i : Nat} {k : Thread → Outcome OwnerNode}
    (h : (s.thread i >>= k) = .next s') : ∃ t, s.threads[i]? = some t ∧ k t = .next s' := by
  obtain ⟨t, ht, h⟩ := bind_eq_next.1 h
  exact ⟨t, thread_eq_next.1 ht, h⟩

theorem setLock_self (p : PageId) : s.setLock p (s.locks p) = s := by
  unfold setLock
  rw [Function.update_eq_self]

theorem work_cases {i : Nat} {addr : UInt64} (h : s.work tab me i addr = .next s') :
    Step me s s' := by
  obtain ⟨t, hi, h⟩ := exists_thread h
  split at h
  · rename_i f stage
    have hafter : ∀ {st : Dtx.State} {r : Option Nat}, t.visit.exclusive = true →
        Worked (s.inHand t.page f) st r → Step me s (s.afterWork me i t f (st, r)) := by
      intro st r hx hworked
      have hstep : Step me s _ := .work hi stage hx hworked
      cases r <;> exact hstep
    split at h
    · obtain rfl := next.inj h
      exact .inspect hi stage
    · rename_i hvisit
      simp only [bind_eq_next] at h
      obtain ⟨⟨st, r⟩, hr, h⟩ := h
      obtain rfl := next.inj h
      exact hafter (by rw [hvisit]; rfl) (lockTuple_worked hr)
    · rename_i hvisit
      simp only [bind_eq_next, cassert_eq_next] at h
      obtain ⟨_, -, ⟨st, r⟩, hr, h⟩ := h
      obtain rfl := next.inj h
      exact hafter (by rw [hvisit]; rfl) (lockTuple_worked hr)
    · obtain rfl := next.inj h
      exact .inspect hi stage
    · simp only [bind_eq_next, cassert_eq_next] at h
      obtain ⟨_, -, h⟩ := h
      obtain rfl := next.inj h
      exact .inspect hi stage
    · rename_i hvisit
      simp only [bind_eq_next] at h
      obtain ⟨⟨st, r⟩, hr, h⟩ := h
      obtain rfl := next.inj h
      exact hafter (by rw [hvisit]; rfl) (unlockTuple_worked hr)
  · cases h

theorem release_cases {i : Nat} (h : s.release i = .next s') : Step me s s' := by
  obtain ⟨t, hi, h⟩ := exists_thread h
  split at h
  · rename_i f stop stage
    -- the branch of the unpinning call, read back as one conditional call
    have hunpin : ∀ {l : LocalPageLock} {k : Pool → Outcome OwnerNode},
        (if l.lock = 0 then s.pool.unpinPage t.page >>= k else .next s.pool >>= k) = .next s' →
        ∃ pool, (if l.lock = 0 then s.pool.unpinPage t.page else .next s.pool) = .next pool ∧
          k pool = .next s' := by
      intro l k h
      split at h <;> obtain ⟨pool, hpool, h⟩ := bind_eq_next.1 h
      · exact ⟨pool, by rw [if_pos ‹_›, hpool], h⟩
      · exact ⟨pool, by rw [if_neg ‹_›, hpool], h⟩
    dsimp only at h
    split at h <;> rename_i hx <;> obtain ⟨l, hl, h⟩ := bind_eq_next.1 h <;>
      obtain ⟨pool, hpool, h⟩ := hunpin h <;> obtain rfl := next.inj h
    · exact .releaseExclusive (t := t) hi stage hx hl hpool
    · exact .releaseShared (t := t) hi stage (by simpa using hx) hl hpool
  · cases h

theorem tryBeginEvict_cases {i : Nat} (h : s.tryBeginEvict i = .next s') : Step me s s' := by
  obtain ⟨t, hi, h⟩ := exists_thread h
  split at h
  · rename_i image f victim stage
    simp only [bind_eq_next] at h
    obtain ⟨⟨l, ok⟩, hl, h⟩ := h
    split at h <;> rename_i hok <;> obtain rfl := next.inj h
    · subst hok
      exact .win hi stage hl
    · have hsame := (LocalPageLock.tryBeginEvict_eq_next hl).2
      rw [if_neg hok] at hsame
      rw [hsame, setLock_self]
      exact .fail hi stage
  · cases h

/-- The step function takes steps of the relation. -/
theorem step_cases {a : OwnerAction} (h : s.step tab me a = .next s') : Step me s s' := by
  cases a with
  | call c =>
    simp only [step, call] at h
    split at h <;> obtain rfl := next.inj h
    · exact .skip
    · exact .call _ _
  | lock i =>
    obtain ⟨t, hi, h⟩ := exists_thread h
    split at h
    · rename_i stage
      split at h <;> rename_i hx <;> simp only [bind_eq_next] at h <;> obtain ⟨l, hl, h⟩ := h <;>
        obtain rfl := next.inj h
      · exact .lockExclusive hi stage hx hl
      · exact .lockShared hi stage (by simpa using hx) hl
    · cases h
  | tryFetch i =>
    obtain ⟨t, hi, h⟩ := exists_thread h
    split at h
    · rename_i stage
      split at h
      · rename_i f table
        simp only [bind_eq_next, cassert_eq_next] at h
        obtain ⟨pool, hpool, _, -, h⟩ := h
        obtain rfl := next.inj h
        exact .found hi stage table hpool
      · rename_i table
        obtain rfl := next.inj h
        exact .missing hi stage table
    · cases h
  | readStorage i image =>
    obtain ⟨t, hi, h⟩ := exists_thread h
    split at h
    · rename_i lsn stage
      simp only [bind_eq_next, await_eq_next] at h
      obtain ⟨_, hle, _, hknown, h⟩ := h
      obtain rfl := next.inj h
      exact .readStorage hi stage hle hknown
    · cases h
  | checkFree i =>
    obtain ⟨t, hi, h⟩ := exists_thread h
    split at h
    · rename_i image stage
      simp only [bind_eq_next] at h
      obtain ⟨⟨pool, frame⟩, hpool, h⟩ := h
      have hstep : Step me s _ := .checkFree hi stage hpool
      cases frame <;> obtain rfl := next.inj h <;> exact hstep
    · cases h
  | insertFree i =>
    simp only [step, insertFree, insert, bind_eq_next, thread_eq_next] at h
    obtain ⟨t, hi, h⟩ := h
    split at h
    · rename_i image f stage
      simp only [bind_eq_next] at h
      obtain ⟨_, ⟨pool, hpool, heq⟩, h⟩ := h
      obtain rfl := next.inj heq
      obtain rfl := next.inj h
      exact .insertFree hi stage hpool
    · cases h
  | startProbe i start =>
    obtain ⟨t, hi, h⟩ := exists_thread h
    split at h
    · obtain rfl := next.inj h
      exact .startProbe hi ‹_›
    · cases h
  | probe i =>
    obtain ⟨t, hi, h⟩ := exists_thread h
    split at h
    · split at h
      · obtain rfl := next.inj h
        exact .pick hi ‹_› ‹_›
      · simp only [bind_eq_next, cassert_eq_next] at h
        obtain ⟨_, -, h⟩ := h
        obtain rfl := next.inj h
        exact .probeNext hi ‹_›
    · cases h
  | readVictim i =>
    obtain ⟨t, hi, h⟩ := exists_thread h
    split at h
    · split at h <;> obtain rfl := next.inj h
      · exact .readNone hi ‹_›
      · exact .readVictim hi ‹_› ‹_›
    · cases h
  | tryBeginEvict i => exact tryBeginEvict_cases h
  | endVictim i =>
    obtain ⟨t, hi, h⟩ := exists_thread h
    split at h
    · obtain rfl := next.inj h
      exact .endVictimFalse hi ‹_›
    · obtain rfl := next.inj h
      exact .endVictimTrue hi ‹_›
    · cases h
  | readAgain i =>
    obtain ⟨t, hi, h⟩ := exists_thread h
    split at h
    · split at h <;> obtain rfl := next.inj h
      · exact .lose hi ‹_›
      · exact .choose hi ‹_›
    · cases h
  | fetchVictim i =>
    obtain ⟨t, hi, h⟩ := exists_thread h
    split at h
    · simp only [bind_eq_next] at h
      obtain ⟨pool, hpool, h⟩ := h
      obtain rfl := next.inj h
      exact .fetchVictim hi ‹_› hpool
    · cases h
  | replace i =>
    simp only [step, replace, insert, bind_eq_next, thread_eq_next] at h
    obtain ⟨t, hi, h⟩ := h
    split at h
    · rename_i image f victim stage
      simp only [bind_eq_next] at h
      obtain ⟨_, ⟨pool, hpool, heq⟩, h⟩ := h
      obtain rfl := next.inj heq
      obtain rfl := next.inj h
      exact .replace hi stage hpool
    · cases h
  | endEvict i =>
    obtain ⟨t, hi, h⟩ := exists_thread h
    split at h
    · simp only [bind_eq_next] at h
      obtain ⟨l, hl, h⟩ := h
      obtain rfl := next.inj h
      exact .retry hi ‹_› hl
    · simp only [bind_eq_next] at h
      obtain ⟨l, hl, h⟩ := h
      obtain rfl := next.inj h
      exact .endEvict hi ‹_› hl
    · cases h
  | unlockMtx i =>
    obtain ⟨t, hi, h⟩ := exists_thread h
    split at h
    · simp only [bind_eq_next, cassert_eq_next] at h
      obtain ⟨_, -, h⟩ := h
      obtain rfl := next.inj h
      exact .unlockMtx hi ‹_›
    · cases h
  | work i addr => exact work_cases h
  | setNewestLsn i =>
    obtain ⟨t, hi, h⟩ := exists_thread h
    split at h
    · obtain rfl := next.inj h
      exact .setNewestLsn hi ‹_›
    · cases h
  | release i => exact release_cases h
  | next i =>
    obtain ⟨t, hi, h⟩ := exists_thread h
    split at h
    · obtain rfl := next.inj h
      exact .next hi ‹_›
    · cases h
  | addMetadataLog =>
    obtain rfl := next.inj h
    exact .addMetadataLog

end OwnerNode

end BufferPool
