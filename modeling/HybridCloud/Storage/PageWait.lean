import HybridCloud.Storage.Proofs.ReplayRuns

/-!
# Waiting for a version of a page

`WaitForPage` (src/core/storage/logreplay.cc) lets a fetch wait until the replay thread has brought a
page to the version the fetch asks for. The first call for a page makes its `PageProgress` and reads
the version from the file; `PublishPageApplied` skips pages that have no entry.

The state is that of one page, with its entry and the calls for it; the entries of different pages
have nothing in common. What a thread does under the entry's mutex is one step, but for the read of
the file: between it and the rest of the critical section the replay thread may write the page.
No other request writes or drops the page.
-/

namespace Storage

open Outcome LogReplay

/-- Where a call of `WaitForPage` stands. -/
inductive WaitStage where
  | called
  /-- It has the entry and needs its mutex: the first time, or after `changed.wait`. -/
  | found
  /-- It has taken the mutex and read the page header. -/
  | read (llsn : Nat)
  /-- In `changed.wait`. -/
  | waiting
  | returned
  deriving DecidableEq

/-- A call of `WaitForPage`. -/
structure WaitCall where
  target : Nat
  stage : WaitStage

/-- Where the replay thread stands. -/
inductive ReplayStage where
  | idle
  /-- It will call `apply_single_log`. -/
  | applying (log : LogRecord)
  /-- `apply_single_log` has these write calls left. -/
  | writing (log : LogRecord) (todo : List PageWrite)
  /-- `PublishPageApplied` will look the entry up; `loop` says whether the loop of `Dispatch` goes on
  afterwards. -/
  | publishing (lsn : Nat) (loop : Bool)
  /-- It has the entry. -/
  | found (lsn : Nat) (loop : Bool)
  /-- It has changed the entry and will wake the waiters. -/
  | notifying (lsn : Nat) (loop : Bool)

/-- One heap page, its `PageProgress` and the calls for it, and the replay thread. -/
structure PageWait where
  stored : Page
  /-- `waiting_` of the page. -/
  waiting : List LogRecord := []
  replay : ReplayStage := .idle
  calls : Nat → Option WaitCall := fun _ => none
  /-- Does `page_progress_` have the entry? -/
  made : Bool := false
  /-- The call that holds `mutex`. -/
  mutex : Option Nat := none
  applied : Nat := 0
  initialized : Bool := false
  /-- Ghost: the version of the last `PublishPageApplied` that has returned. -/
  published : Nat := 0

namespace PageWait

/-- A call moves on. -/
def setStage (s : PageWait) (i : Nat) (c : WaitCall) (stage : WaitStage) : PageWait :=
  { s with calls := Function.update s.calls i (some { c with stage := stage }) }

/-- A call of `WaitForPage`; one for version 0 returns at once. -/
def call (s : PageWait) (i target : Nat) : Outcome PageWait := do
  await ((s.calls i).isNone = true)
  return s.setStage i ⟨target, .called⟩ (if target = 0 then .returned else .called)

/-- The comparison of `applied` with the target; the return and `wait` both release the mutex. -/
def check (s : PageWait) (i : Nat) (c : WaitCall) : PageWait :=
  { s with mutex := none }.setStage i c (if c.target ≤ s.applied then .returned else .waiting)

/-- The next step of a call of `LogReplay::WaitForPage`. -/
def waitForPage (s : PageWait) (i : Nat) : Outcome PageWait :=
  match s.calls i with
  | none => .blocked
  | some c =>
    match c.stage with
    | .called => return { s with made := true }.setStage i c .found
    | .found => do
      await (s.mutex = none)
      if s.initialized then
        return s.check i c
      else
        return { s with mutex := some i }.setStage i c (.read s.stored.hdr.llsn)
    | .read llsn => return { s with applied := llsn, initialized := true }.check i c
    | .waiting =>
      -- a spurious wakeup
      return s.setStage i c .found
    | .returned => .blocked

/-- `LogReplay::Dispatch` of a record of the page, up to the loop. -/
def dispatch (key : PageKey) (s : PageWait) (log : LogRecord) : Outcome PageWait :=
  match s.replay with
  | .idle => do
    await (log.pageForLog = some key)
    let hdr := s.stored.hdr
    if log.lsn ≤ hdr.llsn then
      return { s with replay := .publishing hdr.llsn false }
    else if hdr.llsn < log.prevLsn then do
      cassert (s.waiting.find? (isSuccessor key log.prevLsn) = none)
      return { s with waiting := s.waiting ++ [log] }
    else do
      cassert (¬ (log.prevLsn ≠ hdr.llsn ∨ log.lsn ≤ log.prevLsn))
      return { s with replay := .applying log }
  | _ => .blocked

/-- The end of a round of the loop of `Dispatch`: go on with the parked record that follows. -/
def follow (key : PageKey) (s : PageWait) (lsn : Nat) : PageWait :=
  match s.waiting.find? (isSuccessor key lsn) with
  | none => { s with replay := .idle }
  | some log => { s with waiting := s.waiting.erase log, replay := .applying log }

/-- `PublishPageApplied` returns. -/
def endPublish (key : PageKey) (s : PageWait) (lsn : Nat) (loop : Bool) : PageWait :=
  let s := { s with published := lsn }
  if loop then follow key s lsn else { s with replay := .idle }

/-- `changed.notify_all()` -/
def notifyAll (c : WaitCall) : WaitCall :=
  if c.stage = .waiting then { c with stage := .found } else c

/-- The next step of the replay thread. `hdr` is the file header `apply_single_log` works with; in SQL
mode it skips a table that is not in the catalog. -/
def replayStep (key : PageKey) (s : PageWait) (hdr : Option RmFileHdr) : Outcome PageWait :=
  match s.replay with
  | .idle => .blocked
  | .applying log =>
    match hdr with
    | none => return follow key s log.lsn
    | some fileHdr => do
      let todo ← log.body.redoWrites fileHdr log s.stored
      return { s with replay := .writing log todo }
  | .writing log [] => return { s with replay := .publishing log.lsn true }
  | .writing log (w :: todo) =>
    return { s with stored := s.stored.perform w, replay := .writing log todo }
  | .publishing lsn loop =>
    if s.made then
      return { s with replay := .found lsn loop }
    else
      return endPublish key s lsn loop
  | .found lsn loop => do
    await (s.mutex = none)
    return { s with applied := lsn, initialized := true, replay := .notifying lsn loop }
  | .notifying lsn loop =>
    return endPublish key { s with calls := fun i => (s.calls i).map notifyAll } lsn loop

/-- The steps of callers and of replay. -/
inductive Action where
  | call (i target : Nat)
  | waitForPage (i : Nat)
  | dispatch (log : LogRecord)
  | replay (hdr : Option RmFileHdr)

/-- One step. -/
def step (key : PageKey) (s : PageWait) : Action → Outcome PageWait
  | .call i target => s.call i target
  | .waitForPage i => s.waitForPage i
  | .dispatch log => dispatch key s log
  | .replay hdr => replayStep key s hdr

/-! ## The invariant -/

/-- What call `i` may rely on. -/
def CallOk (s : PageWait) (i target : Nat) : WaitStage → Prop
  | .called => True
  | .found => s.made = true
  | .read llsn => s.made = true ∧ s.mutex = some i ∧ s.initialized = false ∧ s.published ≤ llsn ∧
      llsn ≤ s.stored.hdr.llsn
  | .waiting => s.initialized = true ∧ s.published < target ∧
      (s.applied < target ∨ ∃ lsn loop, s.replay = .notifying lsn loop)
  | .returned => target ≤ s.stored.hdr.llsn

/-- What replay knows where it is. -/
def ReplayOk (key : PageKey) (s : PageWait) : ReplayStage → Prop
  | .idle => True
  | .applying log => log.pageForLog = some key
  | .writing log todo => ∃ fileHdr page done,
      redoOnPage fileHdr log page = .next (done ++ todo) ∧ s.stored = done.foldl Page.perform page
  | .publishing lsn _ => s.stored.hdr.llsn = lsn
  | .found lsn _ => s.stored.hdr.llsn = lsn ∧ s.made = true
  | .notifying lsn _ => s.stored.hdr.llsn = lsn ∧ s.initialized = true ∧ s.applied = lsn

/-- What holds of the entry of the page. -/
structure Inv (key : PageKey) (s : PageWait) : Prop where
  published : s.published ≤ s.stored.hdr.llsn
  /-- An initialized entry is between what is published and what is stored. -/
  entry : s.initialized = true →
    s.made = true ∧ s.published ≤ s.applied ∧ s.applied ≤ s.stored.hdr.llsn
  holder : ∀ i, s.mutex = some i → ∃ c llsn, s.calls i = some c ∧ c.stage = .read llsn
  call : ∀ i c, s.calls i = some c → s.CallOk i c.target c.stage
  replay : ReplayOk key s s.replay

variable {key : PageKey} {s s' : PageWait} {i : Nat} {c : WaitCall}

theorem inv_init (p : Page) : Inv key { stored := p } :=
  ⟨Nat.zero_le _, nofun, nofun, nofun, trivial⟩

/-- A step of call `i`: only the holder of the mutex changes the entry, and what is initialized
stays. -/
theorem Inv.setStage (h : Inv key s) {stage : WaitStage} {m : Bool} {x : Option Nat}
    {v : Nat} {b : Bool} (hmade : s.made = true → m = true)
    (hmutex : ∀ j, j ≠ i → (x = some j ↔ s.mutex = some j))
    (hheld : ∀ j, j ≠ i → s.mutex = some j → b = s.initialized)
    (hinit : s.initialized = true → b = true ∧ v = s.applied)
    (hentry : b = true → m = true ∧ s.published ≤ v ∧ v ≤ s.stored.hdr.llsn)
    (hself : x = some i → ∃ llsn, stage = .read llsn)
    (hok : CallOk { s with made := m, mutex := x, applied := v, initialized := b } i c.target
      stage) :
    Inv key ({ s with made := m, mutex := x, applied := v, initialized := b }.setStage i c
      stage) where
  published := h.published
  entry := hentry
  holder j hj := by
    by_cases hji : j = i
    · subst hji
      obtain ⟨llsn, hstage⟩ := hself hj
      exact ⟨_, llsn, Function.update_self .., hstage⟩
    · obtain ⟨c', llsn, hc', hstage⟩ := h.holder j ((hmutex j hji).1 hj)
      exact ⟨c', llsn, (Function.update_of_ne hji ..).trans hc', hstage⟩
  call j c' hj := by
    by_cases hji : j = i
    · subst hji
      obtain rfl : { c with stage := stage } = c' := by simpa [PageWait.setStage] using hj
      exact hok
    · have hc' := h.call j c' ((Function.update_of_ne hji ..).symm.trans hj)
      cases hstage : c'.stage with rw [hstage] at hc'
      | called => trivial
      | found => exact hmade hc'
      | read llsn =>
        obtain ⟨hm, hj, huninit, hle⟩ := hc'
        exact ⟨hmade hm, (hmutex j hji).2 hj, (hheld j hji hj).trans huninit, hle⟩
      | waiting => exact ⟨(hinit hc'.1).1, hc'.2.1, (hinit hc'.1).2.symm ▸ hc'.2.2⟩
      | returned => exact hc'
  replay := by
    have hreplay := h.replay
    show ReplayOk key _ s.replay
    cases hr : s.replay with rw [hr] at hreplay
    | found => exact ⟨hreplay.1, hmade hreplay.2⟩
    | notifying =>
      obtain ⟨hlsn, hb, hv⟩ := hreplay
      exact ⟨hlsn, (hinit hb).1, (hinit hb).2.trans hv⟩
    | _ => exact hreplay

theorem Inv.check (h : Inv key s) {v : Nat} (hmade : s.made = true)
    (hothers : ∀ j, j ≠ i → s.mutex ≠ some j) (hinit : s.initialized = true → v = s.applied)
    (hv : s.published ≤ v ∧ v ≤ s.stored.hdr.llsn) :
    Inv key ({ s with applied := v, initialized := true }.check i c) := by
  refine h.setStage id (fun j hji => ?_) (fun j hji hj => absurd hj (hothers j hji))
    (fun hb => ⟨rfl, hinit hb⟩) (fun _ => ⟨hmade, hv⟩) nofun ?_
  · simp [hothers j hji]
  · split
    · exact le_trans ‹_› hv.2
    · have hlt : v < c.target := Nat.lt_of_not_le ‹_›
      exact ⟨rfl, Nat.lt_of_le_of_lt hv.1 hlt, .inl hlt⟩

theorem Inv.waitForPage (h : Inv key s) (hs : s.waitForPage i = .next s') : Inv key s' := by
  unfold PageWait.waitForPage at hs
  split at hs
  · cases hs
  · rename_i c hi
    have hok := h.call i c hi
    have hfree : (∀ llsn, c.stage ≠ .read llsn) → s.mutex ≠ some i := by
      intro hstage hmutex
      obtain ⟨c', llsn, hc', hread⟩ := h.holder i hmutex
      obtain rfl := Option.some.inj (hi.symm.trans hc')
      exact hstage llsn hread
    split at hs <;> rename_i hstage <;> rw [hstage] at hok
    · -- called
      obtain rfl := next.inj hs
      refine h.setStage (fun _ => rfl) (fun _ _ => .rfl) (fun _ _ _ => rfl)
        (fun hinit => ⟨hinit, rfl⟩) (fun hinit => ⟨rfl, (h.entry hinit).2⟩) ?_ rfl
      exact fun hmutex => absurd hmutex (hfree (by simp [hstage]))
    · -- found
      simp only [bind_eq_next, await_eq_next] at hs
      obtain ⟨_, hnone, hs⟩ := hs
      split at hs <;> rename_i hinit <;> obtain rfl := next.inj hs
      · have hcheck := h.check (i := i) (c := c) (h.entry hinit).1 (by simp [hnone])
          (fun _ => rfl) (h.entry hinit).2
        rwa [← hinit] at hcheck
      · refine h.setStage id (fun j hji => ?_) (fun _ _ _ => rfl) (fun hinit => ⟨hinit, rfl⟩)
          h.entry (fun _ => ⟨_, rfl⟩) ⟨hok, rfl, by simpa using hinit, h.published, le_rfl⟩
        simp [hnone, Ne.symm hji]
    · -- read
      obtain rfl := next.inj hs
      obtain ⟨hmade, hmutex, huninit, hle⟩ := hok
      refine h.check hmade (fun j hji hj => ?_) (by simp [huninit]) hle
      exact hji (Option.some.inj (hj.symm.trans hmutex))
    · -- waiting
      obtain rfl := next.inj hs
      refine h.setStage id (fun _ _ => .rfl) (fun _ _ _ => rfl) (fun hinit => ⟨hinit, rfl⟩) h.entry
        ?_ (h.entry hok.1).1
      exact fun hmutex => absurd hmutex (hfree (by simp [hstage]))
    · cases hs

theorem Inv.replay_step (h : Inv key s) {p : Page} {waiting : List LogRecord} {r : ReplayStage}
    (hbefore : ∀ lsn loop, s.replay ≠ .notifying lsn loop)
    (hle : s.stored.hdr.llsn ≤ p.hdr.llsn)
    (hr : ReplayOk key { s with stored := p, waiting := waiting, replay := r } r) :
    Inv key { s with stored := p, waiting := waiting, replay := r } where
  published := h.published.trans hle
  entry hinit := ⟨(h.entry hinit).1, (h.entry hinit).2.1, (h.entry hinit).2.2.trans hle⟩
  holder := h.holder
  call i c hi := by
    have hok := h.call i c hi
    cases hstage : c.stage with rw [hstage] at hok
    | read llsn => exact ⟨hok.1, hok.2.1, hok.2.2.1, hok.2.2.2.1, hok.2.2.2.2.trans hle⟩
    | waiting =>
      obtain ⟨hinit, hlt, hlate | ⟨lsn, loop, hnotify⟩⟩ := hok
      · exact ⟨hinit, hlt, .inl hlate⟩
      · exact absurd hnotify (hbefore lsn loop)
    | returned => exact hok.trans hle
    | _ => exact hok
  replay := hr

theorem Inv.follow {lsn : Nat} (h : Inv key { s with replay := .idle }) :
    Inv key (follow key s lsn) := by
  unfold PageWait.follow
  split
  · exact h
  · rename_i log hlog
    have hkey := List.find?_some hlog
    refine h.replay_step nofun le_rfl ?_
    simp only [isSuccessor, Bool.and_eq_true, beq_iff_eq] at hkey
    exact hkey.1

theorem Inv.endPublish (h : Inv key s) {lsn : Nat} {loop : Bool} {calls : Nat → Option WaitCall}
    (hlsn : s.stored.hdr.llsn = lsn) (hentry : s.initialized = true → s.applied = lsn)
    (hholder : ∀ i, s.mutex = some i → ∃ c llsn, calls i = some c ∧ c.stage = .read llsn)
    (hcalls : ∀ i c, calls i = some c → (∀ llsn, c.stage ≠ .read llsn) ∧ c.stage ≠ .waiting ∧
      s.CallOk i c.target c.stage) :
    Inv key (endPublish key { s with calls := calls } lsn loop) := by
  have hidle : Inv key { s with calls := calls, published := lsn, replay := .idle } := by
    refine ⟨hlsn.ge, fun hinit => ⟨(h.entry hinit).1, (hentry hinit).ge, ?_⟩, hholder,
      fun i c hi => ?_, trivial⟩
    · exact (h.entry hinit).2.2
    · obtain ⟨hread, hwaiting, hok⟩ := hcalls i c hi
      cases hstage : c.stage with rw [hstage] at hok
      | read llsn => exact absurd hstage (hread llsn)
      | waiting => exact absurd hstage hwaiting
      | _ => exact hok
  cases loop with
  | false => exact hidle
  | true => exact hidle.follow

theorem Inv.write (h : Inv key s) {log : LogRecord} {w : PageWrite} {todo : List PageWrite}
    (hr : s.replay = .writing log (w :: todo)) :
    Inv key { s with stored := s.stored.perform w, replay := .writing log todo } := by
  have hreplay := h.replay
  rw [hr] at hreplay
  obtain ⟨fileHdr, page, done, hredo, hpage⟩ := hreplay
  have hnext : s.stored.perform w = (done ++ [w]).foldl Page.perform page := by
    rw [hpage, List.foldl_append]
    rfl
  have hbefore := (redoOnPage_again hredo (List.prefix_append done _) (by simp)).1
  rw [List.append_cons] at hredo
  refine h.replay_step (by rw [hr]; nofun) ?_ ⟨fileHdr, page, done ++ [w], hredo, hnext⟩
  obtain ⟨hprev, hlt, hlast⟩ := redoOnPage_version hredo
  rw [hnext, hpage, hbefore]
  by_cases hend : todo = []
  · subst hend
    rw [List.append_nil] at hlast
    omega
  · exact (redoOnPage_again hredo (List.prefix_append _ todo) (by simp [hend])).1.ge

theorem Inv.replayStep (h : Inv key s) {hdr : Option RmFileHdr}
    (hs : replayStep key s hdr = .next s') : Inv key s' := by
  have hreplay := h.replay
  unfold PageWait.replayStep at hs
  split at hs <;> rename_i hr <;> rw [hr] at hreplay
  · cases hs
  · rename_i log
    have hbefore : ∀ lsn loop, s.replay ≠ .notifying lsn loop := by rw [hr]; simp
    split at hs
    · obtain rfl := next.inj hs
      exact Inv.follow (h.replay_step hbefore le_rfl trivial)
    · rename_i fileHdr
      simp only [bind_eq_next, pure_def, next.injEq] at hs
      obtain ⟨todo, hredo, rfl⟩ := hs
      refine h.replay_step hbefore le_rfl ⟨fileHdr, s.stored, [], ?_, rfl⟩
      rw [redoOnPage_of_key hreplay, hredo, List.nil_append]
  · -- the last write call has returned
    obtain rfl := next.inj hs
    obtain ⟨fileHdr, page, done, hredo, hpage⟩ := hreplay
    rw [List.append_nil] at hredo
    refine h.replay_step (by rw [hr]; simp) le_rfl ?_
    show s.stored.hdr.llsn = _
    rw [hpage]
    exact (redoOnPage_version hredo).2.2
  · obtain rfl := next.inj hs
    exact h.write hr
  · -- publishing
    split at hs <;> rename_i hmade <;> obtain rfl := next.inj hs
    · exact h.replay_step (by rw [hr]; simp) le_rfl ⟨hreplay, hmade⟩
    · refine h.endPublish hreplay (fun hinit => absurd (h.entry hinit).1 hmade) h.holder ?_
      intro i c hi
      have hok := h.call i c hi
      refine ⟨fun llsn hstage => ?_, fun hstage => ?_, hok⟩ <;> rw [hstage] at hok
      · exact hmade hok.1
      · exact hmade (h.entry hok.1).1
  · -- found
    rename_i lsn loop
    simp only [bind_eq_next, await_eq_next, pure_def, next.injEq] at hs
    obtain ⟨_, hmutex, rfl⟩ := hs
    obtain ⟨hlsn, hmade⟩ := hreplay
    refine ⟨h.published, fun _ => ⟨hmade, hlsn ▸ h.published, hlsn.ge⟩, h.holder, fun i c hi => ?_,
      ⟨hlsn, rfl, rfl⟩⟩
    have hok := h.call i c hi
    cases hstage : c.stage with rw [hstage] at hok
    | read llsn => exact absurd hok.2.1 (by simp [hmutex])
    | waiting => exact ⟨rfl, hok.2.1, .inr ⟨lsn, loop, rfl⟩⟩
    | _ => exact hok
  · -- notifying
    obtain rfl := next.inj hs
    obtain ⟨hlsn, hinit, happlied⟩ := hreplay
    refine h.endPublish hlsn (fun _ => happlied) (fun i hi => ?_) fun i c' hi => ?_
    · obtain ⟨c, llsn, hc, hstage⟩ := h.holder i hi
      exact ⟨c, llsn, by simp [hc, notifyAll, hstage], hstage⟩
    · obtain ⟨c, hc, rfl⟩ := Option.map_eq_some_iff.1 hi
      have hok := h.call i c hc
      unfold notifyAll
      split
      · exact ⟨(by simp), (by simp), (h.entry hinit).1⟩
      · refine ⟨fun llsn hstage => ?_, ‹_›, hok⟩
        rw [hstage] at hok
        exact absurd hok.2.2.1 (by simp [hinit])

theorem Inv.step (h : Inv key s) {a : Action} (hs : step key s a = .next s') : Inv key s' := by
  cases a with
  | call i target =>
    simp only [PageWait.step, PageWait.call, bind_eq_next, await_eq_next, pure_def,
      next.injEq] at hs
    obtain ⟨_, hnone, rfl⟩ := hs
    refine h.setStage id (fun _ _ => .rfl) (fun _ _ _ => rfl) (fun hinit => ⟨hinit, rfl⟩) h.entry
      (fun hi => ?_) ?_
    · obtain ⟨c, llsn, hc, -⟩ := h.holder i hi
      simp [hc] at hnone
    · split
      · exact (‹_› : target = 0) ▸ Nat.zero_le _
      · trivial
  | waitForPage i => exact h.waitForPage hs
  | dispatch log =>
    simp only [PageWait.step, PageWait.dispatch] at hs
    split at hs
    · rename_i hr
      have hbefore : ∀ lsn loop, s.replay ≠ .notifying lsn loop := by rw [hr]; nofun
      obtain ⟨_, hkey, hs⟩ := bind_eq_next.1 hs
      rw [await_eq_next] at hkey
      split at hs
      · obtain rfl := next.inj hs
        exact h.replay_step hbefore le_rfl rfl
      · split at hs <;> simp only [bind_eq_next, cassert_eq_next, pure_def, next.injEq] at hs <;>
          obtain ⟨_, -, rfl⟩ := hs
        · exact h.replay_step hbefore le_rfl h.replay
        · exact h.replay_step hbefore le_rfl hkey
    · cases hs
  | replay hdr => exact h.replayStep hs

/-- A call that has not returned is blocked by the mutex only, and one step of the mutex's holder
lets it go on. -/
theorem Inv.of_blocked (h : Inv key s) (hi : s.calls i = some c) (hreturned : c.stage ≠ .returned)
    (hs : s.waitForPage i = .blocked) :
    ∃ j s', s.waitForPage j = .next s' ∧ s'.mutex = none ∧ s'.waitForPage i ≠ .blocked := by
  unfold PageWait.waitForPage at hs
  cases hstage : c.stage with simp only [hi, hstage] at hs
  | found =>
    cases hmutex : s.mutex with
    | none =>
      rw [hmutex, await_bind rfl] at hs
      split at hs <;> cases hs
    | some j =>
      obtain ⟨c', llsn, hj, hread⟩ := h.holder j hmutex
      have hij : i ≠ j := by
        rintro rfl
        obtain rfl := Option.some.inj (hi.symm.trans hj)
        simp [hstage] at hread
      refine ⟨j, { s with applied := llsn, initialized := true }.check j c', ?_, rfl, ?_⟩
      · simp only [PageWait.waitForPage, hj, hread, pure_def]
      · simp [PageWait.waitForPage, PageWait.check, PageWait.setStage, hij, hi, hstage, await]
  | returned => exact absurd hstage hreturned
  | _ => cases hs

/-- In every interleaving, a call has returned only if the stored page has its version, also in all
later states. Once a record of that version or a later one has been published, the call is not in
`wait`, and if it is blocked, then by the mutex, and one step of the holder lets it go on. -/
theorem waitForPage_returns {p : Page} (run : Run (step key) (fun _ _ => True) { stored := p } s)
    (hi : s.calls i = some c) :
    (c.stage = .returned → c.target ≤ s.stored.hdr.llsn) ∧
    (c.target ≤ s.published → c.stage ≠ .returned →
      c.stage ≠ .waiting ∧
      (s.waitForPage i = .blocked →
        ∃ j s', s.waitForPage j = .next s' ∧ s'.mutex = none ∧ s'.waitForPage i ≠ .blocked)) := by
  have h := run.invariant (inv_init p) fun h _ hs => h.step hs
  have hok := h.call i c hi
  refine ⟨fun hstage => by rw [hstage] at hok; exact hok, fun hpublished hreturned => ⟨?_, ?_⟩⟩
  · intro hstage
    rw [hstage] at hok
    exact absurd hpublished (Nat.not_le_of_lt hok.2.1)
  · exact h.of_blocked hi hreturned

/-- A fetch waits for the version that the first record makes; replay publishes it. -/
def waitThenPublish : List Action :=
  .call 0 1 :: List.replicate 5 (.waitForPage 0) ++ .dispatch lockedByNode0 ::
    List.replicate 7 (.replay (some ⟨73, 2, 1, 1⟩))

theorem waitForPage_returns_published :
    ∃ p s c, Run (step ("t", 1)) (fun _ _ => True) { stored := p } s ∧ s.calls 0 = some c ∧
      c.target = 1 ∧ s.published = 1 ∧ c.stage ≠ .returned ∧ c.stage ≠ .waiting := by
  obtain ⟨s, run, hs⟩ := Run.of_reaches (step ("t", 1)) (fun _ _ => True) waitThenPublish
    { stored := ⟨⟨0, 1, 0, 0⟩, fun _ => true, fun _ => ⟨3, .init, [4]⟩⟩ }
    (fun s => (s.calls 0).any fun c => c.target = 1 ∧ s.published = 1 ∧ c.stage ≠ .returned)
    (by decide +kernel)
  cases hc : s.calls 0 with
  | none => simp [hc] at hs
  | some c =>
    simp only [hc, Option.any_some, decide_eq_true_eq] at hs
    obtain ⟨htarget, hpublished, hreturned⟩ := hs
    exact ⟨_, s, c, run, hc, htarget, hpublished, hreturned,
      ((waitForPage_returns run hc).2 (by rw [htarget, hpublished]) hreturned).1⟩

end PageWait

end Storage
