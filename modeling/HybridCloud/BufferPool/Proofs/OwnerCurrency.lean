import HybridCloud.BufferPool.Proofs.OwnerFrames
import HybridCloud.Dtx.Proofs.ReplayedPage

/-!
# The owner of a page reads its latest version

Pages in the pool and pages on their way there have their latest version, and `newest_lsn` is that
version unless the page's writer is about to set it (`VersionInv`). So every page that a fetch
returns is current, although evicted pages are dropped.
-/

namespace BufferPool

open Outcome Storage Function Counting

namespace OwnerNode

variable {tab : Dtx.Table} {me n : Nat} {s s' : OwnerNode} {i j : Nat} {t x : Thread}

/-- The LSN of the page's last record, as `newest_lsn` has it. -/
def lastLogged (s : OwnerNode) (p : PageId) : Nat := ((s.records p).getLast?.map (·.lsn)).getD 0

/-- Pages in the pool and pages on their way there have their latest version. -/
structure VersionInv (s : OwnerNode) : Prop where
  current : ∀ p f, s.pool.pageTable p = some f → (s.images f).hdr.llsn = s.lastLsn p
  image : ∀ (i : Nat) (t : Thread) (image : Page), s.threads[i]? = some t →
    t.stage.image = some image → image.hdr.llsn = s.lastLsn t.page
  fetching : ∀ (i : Nat) (t : Thread) (lsn : Nat), s.threads[i]? = some t →
    t.stage = .fetching lsn → lsn = (s.locks t.page).newestLsn
  logged : ∀ (i : Nat) (t : Thread) (f : FrameId) (lsn : Nat), s.threads[i]? = some t →
    t.stage = .logged f lsn → t.visit.exclusive = true ∧ lsn = s.lastLogged t.page
  newest : ∀ p, (s.locks p).newestLsn = s.lastLogged p ∨
    ∃ (i : Nat) (t : Thread) (f : FrameId) (lsn : Nat), s.threads[i]? = some t ∧ t.page = p ∧
      t.stage = .logged f lsn
  ordered : ∀ p, s.stored p ≤ s.lastLsn p ∧ ∀ r ∈ s.records p, r.lsn ≤ s.lastLsn p

variable {image : Page} {stored : PageId → Nat} {currentLLSN : Nat}

theorem versionInv_init : (init n image stored currentLLSN).VersionInv := by
  refine ⟨nofun, ?_, ?_, ?_, fun _ => .inl rfl, fun p => ⟨le_rfl, nofun⟩⟩ <;>
    intro i t <;> intros <;> simp [init] at *

section Version

variable {t' : Thread}

/-- A thread of page `q` that has not set `newest_lsn` yet stays, if another one goes on. -/
theorem logged_of_set (hi : s.threads[i]? = some t) {q : PageId}
    (hne : ∀ f lsn, t.page = q → t.stage ≠ .logged f lsn)
    (h : ∃ (i : Nat) (t : Thread) (f : FrameId) (lsn : Nat), s.threads[i]? = some t ∧ t.page = q ∧
      t.stage = .logged f lsn) :
    ∃ (j : Nat) (x : Thread) (f : FrameId) (lsn : Nat), (s.threads.set i t')[j]? = some x ∧
      x.page = q ∧ x.stage = .logged f lsn := by
  obtain ⟨j, x, f, lsn, hj, hp, hx⟩ := h
  have hij : i ≠ j := by
    rintro rfl
    obtain rfl := Option.some.inj (hi.symm.trans hj)
    exact hne f lsn hp hx
  exact ⟨j, x, f, lsn, by rw [List.getElem?_set_ne hij, hj], hp, hx⟩

theorem VersionInv.keep (h : s.VersionInv) (hi : s.threads[i]? = some t)
    (threads : s'.threads = s.threads.set i t') (stored : s'.stored = s.stored)
    (records : s'.records = s.records)
    (newestLsn : ∀ p, (s'.locks p).newestLsn = (s.locks p).newestLsn)
    (unlogged : ∀ f lsn, t.stage ≠ .logged f lsn)
    (current : ∀ p f, s'.pool.pageTable p = some f → (s'.images f).hdr.llsn = s.lastLsn p)
    (image : ∀ image, t'.stage.image = some image → image.hdr.llsn = s.lastLsn t'.page)
    (fetching : ∀ lsn, t'.stage = .fetching lsn → lsn = (s.locks t'.page).newestLsn)
    (unlogged' : ∀ f lsn, t'.stage ≠ .logged f lsn) : s'.VersionInv := by
  have hlast : s'.lastLsn = s.lastLsn := by
    funext p
    rw [lastLsn, lastLsn, records, stored]
  have hlogged : s'.lastLogged = s.lastLogged := by
    funext p
    rw [lastLogged, lastLogged, records]
  refine ⟨fun p f => ?_, fun j x img hj hx => ?_, fun j x lsn hj hx => ?_,
    fun j x f lsn hj hx => ?_, fun p => ?_, fun p => ?_⟩
  · rw [hlast]
    exact current p f
  · rw [threads] at hj
    rw [hlast]
    rcases getElem?_set_cases hj with ⟨-, rfl⟩ | ⟨-, hj⟩
    · exact image img hx
    · exact h.image j x img hj hx
  · rw [threads] at hj
    rw [newestLsn]
    rcases getElem?_set_cases hj with ⟨-, rfl⟩ | ⟨-, hj⟩
    · exact fetching lsn hx
    · exact h.fetching j x lsn hj hx
  · rw [threads] at hj
    rw [hlogged]
    rcases getElem?_set_cases hj with ⟨-, rfl⟩ | ⟨-, hj⟩
    · exact absurd hx (unlogged' f lsn)
    · exact h.logged j x f lsn hj hx
  · rw [newestLsn, hlogged, threads]
    exact (h.newest p).imp_right (logged_of_set hi fun f lsn _ => unlogged f lsn)
  · rw [hlast, stored, records]
    exact h.ordered p

theorem newestLsn_update {locks : PageId → LocalPageLock} {q : PageId} {l : LocalPageLock}
    (hl : l.newestLsn = (locks q).newestLsn) (p : PageId) :
    (update locks q l p).newestLsn = (locks p).newestLsn := by
  by_cases hp : p = q
  · subst hp
    rw [update_self, hl]
  · rw [update_of_ne hp]

/-- The version that a thread has asked for is the latest one. -/
theorem VersionInv.requested (h : s.VersionInv) (hlocks : s.LocksInv) (hi : s.threads[i]? = some t)
    {lsn : Nat} (stage : t.stage = .fetching lsn) : lsn = s.lastLogged t.page := by
  rw [h.fetching i t lsn hi stage]
  rcases h.newest t.page with hnewest | ⟨j, x, f, k, hj, hp, hx⟩
  · exact hnewest
  · -- the writer that has not set `newest_lsn` yet would be alone
    obtain rfl : i = j := (hlocks t.page).writer_unique hj hp (by rw [hx]; rfl)
      (h.logged j x f k hj hx).1 hi rfl (by rw [stage]; rfl)
    obtain rfl := Option.some.inj (hi.symm.trans hj)
    rw [stage] at hx
    cases hx

theorem VersionInv.answer (h : s.VersionInv) {p : PageId} (le : s.lastLogged p ≤ image.hdr.llsn)
    (known : image.hdr.llsn = s.stored p ∨ ∃ r ∈ s.records p, r.lsn = image.hdr.llsn) :
    image.hdr.llsn = s.lastLsn p := by
  obtain ⟨hstored, hrecords⟩ := h.ordered p
  have hle : image.hdr.llsn ≤ s.lastLsn p := by
    rcases known with heq | ⟨r, hr, heq⟩
    · exact heq ▸ hstored
    · exact heq ▸ hrecords r hr
  cases hlast : (s.records p).getLast? with
  | none =>
    rw [List.getLast?_eq_none_iff] at hlast
    rcases known with heq | ⟨r, hr, -⟩
    · rw [heq, lastLsn, hlast]
      rfl
    · rw [hlast] at hr
      cases hr
  | some r =>
    have hsame : s.lastLogged p = s.lastLsn p := by
      rw [lastLogged, lastLsn, hlast]
      rfl
    omega

variable {f : FrameId}

theorem VersionInv.inserted (h : s.VersionInv) (hi : s.threads[i]? = some t)
    {replaced : Option PageId} (himage : t.stage.image = some image)
    (hins : s.pool.Inserted t.page f replaced s'.pool)
    (hmapped : ∀ q g, s'.pool.pageTable q = some g ↔ (s'.pool.pages g).pageId = some q)
    (images : s'.images = update s.images f image) {q : PageId} {g : FrameId}
    (hq : s'.pool.pageTable q = some g) : (s'.images g).hdr.llsn = s.lastLsn q := by
  have hpage := (hmapped q g).1 hq
  rw [hins.pageId] at hpage
  rw [images]
  by_cases hg : g = f
  · rw [if_pos hg] at hpage
    obtain rfl := Option.some.inj hpage
    rw [hg, update_self]
    exact h.image i t image hi himage
  · rw [update_of_ne hg]
    rw [hins.pageTable] at hq
    split at hq
    · exact absurd (Option.some.inj hq).symm hg
    · split at hq
      · cases hq
      · exact h.current q g hq

theorem VersionInv.work (h : s.VersionInv) (hlocks : s.LocksInv) (hframes : s.FrameInv n)
    (hi : s.threads[i]? = some t) {st : Dtx.State} {lsn : Option Nat}
    (stage : t.stage = .holding f) (exclusive : t.visit.exclusive = true)
    (worked : Worked (s.inHand t.page f) st lsn) :
    ((s.worked me t.page f st).setStage i t (lsn.elim (.done f false) (.logged f))).VersionInv := by
  have hframe := hframes.frame i t f hi (by rw [stage]; rfl)
  have hcur := h.current t.page f hframe
  have hother : ∀ {q : PageId} {g : FrameId}, s.pool.pageTable q = some g → q ≠ t.page → g ≠ f := by
    rintro q g hq hne rfl
    have hpage := (hframes.pool.owned.mapped q g).1 hq
    rw [(hframes.pool.owned.mapped t.page g).1 hframe] at hpage
    exact hne (Option.some.inj hpage).symm
  cases worked with
  | unlogged records llsn =>
    have hthreads : ((s.worked me t.page f st).setStage i t (.done f false)).threads =
        s.threads.set i { t with stage := .done f false } := rfl
    refine h.keep hi hthreads rfl ?_ (fun _ => rfl) (by simp [stage])
      (fun q g hq => ?_) nofun nofun nofun
    · show update s.records t.page st.records = s.records
      rw [records]
      exact update_eq_self ..
    · show (update s.images f st.page g).hdr.llsn = _
      by_cases hg : g = f
      · subst hg
        rw [update_self, llsn]
        exact h.current q g hq
      · rw [update_of_ne hg]
        exact h.current q g hq
  | @logged log records newer llsn =>
    let s₁ := (s.worked me t.page f st).setStage i t (.logged f log.lsn)
    have hthreads : s₁.threads = s.threads.set i { t with stage := .logged f log.lsn } := rfl
    have hrecords : s₁.records t.page = s.records t.page ++ [log] := by
      show update s.records t.page st.records t.page = _
      rw [update_self, records]
      rfl
    have hrecords' : ∀ {q : PageId}, q ≠ t.page → s₁.records q = s.records q := fun hq =>
      update_of_ne hq ..
    have hlast : s₁.lastLsn t.page = log.lsn := by
      rw [lastLsn, hrecords, List.getLast?_concat]
      rfl
    have hlogged : s₁.lastLogged t.page = log.lsn := by
      rw [lastLogged, hrecords, List.getLast?_concat]
      rfl
    have hlast' : ∀ {q : PageId}, q ≠ t.page → s₁.lastLsn q = s.lastLsn q := by
      intro q hq
      rw [lastLsn, lastLsn, hrecords' hq]
      rfl
    have hlogged' : ∀ {q : PageId}, q ≠ t.page → s₁.lastLogged q = s.lastLogged q := by
      intro q hq
      rw [lastLogged, lastLogged, hrecords' hq]
    -- no other thread has the lock of the page
    have halone : ∀ {j : Nat} {x : Thread}, j ≠ i → s.threads[j]? = some x →
        x.stage.hasLock = true → x.page ≠ t.page := fun hne hj hx hp =>
      hne ((hlocks t.page).writer_unique hi rfl (by rw [stage]; rfl) exclusive hj hp hx)
    have hnewer : s.lastLsn t.page < log.lsn := by
      rw [← hcur]
      exact newer
    have hgoal : s₁.VersionInv := by
      refine ⟨fun q g hq => ?_, fun j x img hj hx => ?_, fun j x k hj hx => ?_,
        fun j x g k hj hx => ?_, fun q => ?_, fun q => ?_⟩
      · show (update s.images f st.page g).hdr.llsn = _
        by_cases hqp : q = t.page
        · subst hqp
          obtain rfl : f = g := Option.some.inj (hframe.symm.trans hq)
          rw [update_self, llsn, hlast]
        · rw [update_of_ne (hother hq hqp), hlast' hqp]
          exact h.current q g hq
      · rcases getElem?_set_cases hj with ⟨-, rfl⟩ | ⟨hne, hj⟩
        · cases hx
        · have hlock : x.stage.hasLock = true := Stage.hasLock_of_inMutex
            (Stage.inMutex_of_brings (Stage.brings_of_image hx))
          rw [hlast' (halone hne hj hlock)]
          exact h.image j x img hj hx
      · rcases getElem?_set_cases hj with ⟨-, rfl⟩ | ⟨-, hj⟩
        · cases hx
        · exact h.fetching j x k hj hx
      · rcases getElem?_set_cases hj with ⟨-, rfl⟩ | ⟨hne, hj⟩
        · cases hx
          exact ⟨exclusive, hlogged.symm⟩
        · rw [hlogged' (halone hne hj (by rw [hx]; rfl))]
          exact h.logged j x g k hj hx
      · have hlt : i < s.threads.length := (List.getElem?_eq_some_iff.1 hi).1
        by_cases hqp : q = t.page
        · subst hqp
          refine .inr ⟨i, { t with stage := .logged f log.lsn }, f, log.lsn, ?_, rfl, rfl⟩
          rw [hthreads, List.getElem?_set_self hlt]
        · rw [hlogged' hqp, hthreads]
          exact (h.newest q).imp_right (logged_of_set hi fun _ _ hp => absurd hp.symm hqp)
      · by_cases hqp : q = t.page
        · subst hqp
          obtain ⟨hstored, hle⟩ := h.ordered t.page
          rw [hlast]
          refine ⟨le_trans hstored hnewer.le, fun r hr => ?_⟩
          rw [hrecords] at hr
          rcases List.mem_append.1 hr with hr | hr
          · exact le_trans (hle r hr) hnewer.le
          · rw [List.mem_singleton.1 hr]
        · rw [hlast' hqp, hrecords' hqp]
          exact h.ordered q
    exact hgoal

theorem VersionInv.setNewestLsn (h : s.VersionInv) (hlocks : s.LocksInv)
    (hi : s.threads[i]? = some t) {lsn : Nat} (stage : t.stage = .logged f lsn) :
    ((s.setLock t.page { s.locks t.page with newestLsn := lsn }).setStage i t
      (.done f false)).VersionInv := by
  obtain ⟨exclusive, hlsn⟩ := h.logged i t f lsn hi stage
  have hlock : ∀ {q : PageId}, q ≠ t.page →
      update s.locks t.page { s.locks t.page with newestLsn := lsn } q = s.locks q :=
    fun hq => update_of_ne hq ..
  refine ⟨h.current, fun j x img hj hx => ?_, fun j x k hj hx => ?_, fun j x g k hj hx => ?_,
    fun q => ?_, h.ordered⟩
  · rcases getElem?_set_cases hj with ⟨-, rfl⟩ | ⟨-, hj⟩
    · cases hx
    · exact h.image j x img hj hx
  · rcases getElem?_set_cases hj with ⟨-, rfl⟩ | ⟨hne, hj⟩
    · cases hx
    · have hpage : x.page ≠ t.page := fun hp => hne ((hlocks t.page).writer_unique hi rfl
        (by rw [stage]; rfl) exclusive hj hp (by rw [hx]; rfl))
      refine (h.fetching j x k hj hx).trans ?_
      exact congrArg LocalPageLock.newestLsn (hlock hpage).symm
  · rcases getElem?_set_cases hj with ⟨-, rfl⟩ | ⟨-, hj⟩
    · cases hx
    · exact h.logged j x g k hj hx
  · show (update s.locks t.page { s.locks t.page with newestLsn := lsn } q).newestLsn =
      s.lastLogged q ∨ _
    by_cases hqp : q = t.page
    · subst hqp
      rw [update_self]
      exact .inl hlsn
    · rw [hlock hqp]
      exact (h.newest q).imp_right (logged_of_set hi fun _ _ hp => absurd hp.symm hqp)

theorem VersionInv.step (h : s.VersionInv) (hlocks : s.LocksInv) (hframes : s.FrameInv n)
    (hframes' : s'.FrameInv n) (hs : Step me s s') : s'.VersionInv := by
  cases hs with
  | call v vs =>
    have hold : ∀ {j : Nat} {x : Thread},
        (s.threads ++ [{ visit := v, rest := vs, stage := .idle }])[j]? = some x →
        s.threads[j]? = some x ∨ x.stage = .idle := by
      intro j x hj
      rw [List.getElem?_append] at hj
      split at hj
      · exact .inl hj
      · rw [List.mem_singleton.1 (List.mem_of_getElem? hj)]
        exact .inr rfl
    refine ⟨h.current, fun j x img hj hx => ?_, fun j x k hj hx => ?_, fun j x g k hj hx => ?_,
      fun p => ?_, h.ordered⟩
    · rcases hold hj with hj | hidle
      · exact h.image j x img hj hx
      · rw [hidle] at hx
        cases hx
    · rcases hold hj with hj | hidle
      · exact h.fetching j x k hj hx
      · rw [hidle] at hx
        cases hx
    · rcases hold hj with hj | hidle
      · exact h.logged j x g k hj hx
      · rw [hidle] at hx
        cases hx
    · refine (h.newest p).imp_right ?_
      rintro ⟨j, x, g, k, hj, hp, hx⟩
      have hlt : j < s.threads.length := (List.getElem?_eq_some_iff.1 hj).1
      exact ⟨j, x, g, k, by rw [List.getElem?_append_left hlt, hj], hp, hx⟩
  | skip => exact h
  | addMetadataLog => exact ⟨h.current, h.image, h.fetching, h.logged, h.newest, h.ordered⟩
  | @lockShared i t l hi stage shared taken =>
    obtain ⟨-, -, -, rfl⟩ := LocalPageLock.lockShared_eq_next taken
    exact h.keep hi rfl rfl rfl (newestLsn_update rfl) (by simp [stage]) h.current nofun nofun nofun
  | @lockExclusive i t l hi stage exclusive taken =>
    obtain ⟨-, -, -, rfl⟩ := LocalPageLock.lockExclusive_eq_next taken
    exact h.keep hi rfl rfl rfl (newestLsn_update rfl) (by simp [stage]) h.current nofun nofun nofun
  | @found i t f pool hi stage table taken =>
    obtain ⟨pool', hcall, -, hpinned⟩ := hframes.pool.fetchPage table
    obtain rfl : pool' = pool := next.inj (hcall.symm.trans taken)
    exact h.keep hi rfl rfl rfl (fun _ => rfl) (by simp [stage])
      (fun p g hg => h.current p g (hpinned.same.pageTable ▸ hg)) nofun nofun nofun
  | @missing i t hi stage table =>
    exact h.keep hi rfl rfl rfl (fun _ => rfl) (by simp [stage]) h.current nofun
      (by rintro _ ⟨⟩; rfl) nofun
  | @readStorage i t lsn image hi stage le known =>
    have hreq := h.requested hlocks hi stage
    exact h.keep hi rfl rfl rfl (fun _ => rfl) (by simp [stage]) h.current
      (by rintro _ ⟨⟩; exact h.answer (hreq ▸ le) known) nofun nofun
  | @checkFree i t image pool frame hi stage taken =>
    have himage := h.image i t image hi (by rw [stage]; rfl)
    obtain ⟨pool', frame', hcall, -, htable, -, -⟩ := hframes.pool.checkIfDirectlyPutInBuffer
      (hframes.brings i t hi (by rw [stage]; rfl))
    obtain ⟨rfl, rfl⟩ := Prod.mk.inj (next.inj (hcall.symm.trans taken))
    cases frame' <;>
      exact h.keep hi rfl rfl rfl (fun _ => rfl) (by simp [stage])
        (fun p g hg => h.current p g (htable ▸ hg)) (by rintro _ ⟨⟩; exact himage) nofun nofun
  | @insertFree i t image f pool hi stage taken =>
    have habsent := hframes.brings i t hi (by rw [stage]; rfl)
    obtain ⟨pool', hcall, hins, -⟩ := Pool.insertOrReplace_next (f := f) (r := none)
      hframes.pool.listed nofun habsent
    obtain rfl : pool' = pool := next.inj (hcall.symm.trans taken)
    exact h.keep hi rfl rfl rfl (fun _ => rfl) (by simp [stage])
      (fun q g hq => h.inserted hi (by rw [stage]; rfl) hins hframes'.pool.owned.mapped rfl hq)
      nofun nofun nofun
  | @replace i t image f victim pool hi stage taken =>
    have habsent := hframes.brings i t hi (by rw [stage]; rfl)
    have hmapped := hframes.victim i t f victim hi (by rw [stage]; rfl)
    obtain ⟨pool', hcall, hins, -⟩ := Pool.insertOrReplace_next (f := f) (r := some victim)
      hframes.pool.listed (by rintro _ ⟨⟩; simp [hmapped]) habsent
    obtain rfl : pool' = pool := next.inj (hcall.symm.trans taken)
    exact h.keep hi rfl rfl rfl (fun _ => rfl) (by simp [stage])
      (fun q g hq => h.inserted hi (by rw [stage]; rfl) hins hframes'.pool.owned.mapped rfl hq)
      nofun nofun nofun
  | @win i t image f victim l hi stage taken =>
    have himage := h.image i t image hi (by rw [stage]; rfl)
    obtain ⟨-, -, -, rfl⟩ := LocalPageLock.tryBeginEvict_eq_next taken
    exact h.keep hi rfl rfl rfl (newestLsn_update rfl) (by simp [stage]) h.current
      (by rintro _ ⟨⟩; exact himage) nofun nofun
  | @retry i t image victim l hi stage taken =>
    have himage := h.image i t image hi (by rw [stage]; rfl)
    obtain ⟨-, -, rfl⟩ := LocalPageLock.endEvict_eq_next taken
    exact h.keep hi rfl rfl rfl (newestLsn_update rfl) (by simp [stage]) h.current
      (by rintro _ ⟨⟩; exact himage) nofun nofun
  | @endEvict i t f victim l hi stage taken =>
    obtain ⟨-, -, rfl⟩ := LocalPageLock.endEvict_eq_next taken
    exact h.keep hi rfl rfl rfl (newestLsn_update rfl) (by simp [stage]) h.current nofun nofun nofun
  | @fetchVictim i t image f victim pool hi stage taken =>
    have himage := h.image i t image hi (by rw [stage]; rfl)
    obtain ⟨pool', hcall, -, hpinned⟩ := hframes.pool.fetchPage
      (hframes.victim i t f victim hi (by rw [stage]; rfl))
    obtain rfl : pool' = pool := next.inj (hcall.symm.trans taken)
    exact h.keep hi rfl rfl rfl (fun _ => rfl) (by simp [stage])
      (fun p g hg => h.current p g (hpinned.same.pageTable ▸ hg)) (by rintro _ ⟨⟩; exact himage)
      nofun nofun
  | @unlockMtx i t f hi stage =>
    exact h.keep hi rfl rfl rfl (newestLsn_update rfl) (by simp [stage]) h.current nofun nofun nofun
  | @inspect i t f stop hi stage | @next i t v vs hi stage =>
    exact h.keep hi rfl rfl rfl (fun _ => rfl) (by simp [stage]) h.current nofun nofun nofun
  | @work i t f st lsn hi stage exclusive worked =>
    exact h.work hlocks hframes hi stage exclusive worked
  | @setNewestLsn i t f lsn hi stage => exact h.setNewestLsn hlocks hi stage
  | @releaseShared i t f stop r l pool hi stage shared taken unpin =>
    obtain ⟨-, -, -, heq⟩ := LocalPageLock.unlockShared_eq_next taken
    exact h.keep hi rfl rfl rfl (newestLsn_update (by rw [heq])) (by simp [stage])
      (fun p g hg => h.current p g (hframes.release_table hi (by rw [stage]; rfl) unpin ▸ hg))
      nofun nofun nofun
  | @releaseExclusive i t f stop r l pool hi stage exclusive taken unpin =>
    obtain ⟨-, -, -, heq⟩ := LocalPageLock.unlockExclusive_eq_next taken
    exact h.keep hi rfl rfl rfl (newestLsn_update (by rw [heq])) (by simp [stage])
      (fun p g hg => h.current p g (hframes.release_table hi (by rw [stage]; rfl) unpin ▸ hg))
      nofun nofun nofun
  | _ hi stage =>
    have himage := h.image _ _ _ hi (by rw [stage]; rfl)
    exact h.keep hi rfl rfl rfl (fun _ => rfl) (by simp [stage]) h.current
      (by rintro _ ⟨⟩; exact himage) nofun nofun

end Version

theorem invs_of_run
    (run : Run (OwnerNode.step tab me) (fun _ _ => True) (init n image stored currentLLSN) s) :
    s.LocksInv ∧ s.FrameInv n ∧ s.VersionInv := by
  refine run.invariant (P := fun s : OwnerNode => s.LocksInv ∧ s.FrameInv n ∧ s.VersionInv)
    ⟨locksInv_init, frameInv_init, versionInv_init⟩ ?_
  rintro s a s' ⟨hlocks, hframes, hversions⟩ - taken
  have hs := step_cases taken
  have hframes' := hframes.step hlocks hs
  exact ⟨hlocks.step hs, hframes', hversions.step hlocks hframes hframes' hs⟩

/-- In every run, a page that `local_fetch_s_page` or `local_fetch_x_page` has returned is the one
asked for and has the version of its last logged change. -/
theorem fetched_page_current {image : Page} {stored : PageId → Nat} {currentLLSN : Nat}
    (run : Run (OwnerNode.step tab me) (fun _ _ => True) (init n image stored currentLLSN) s)
    {f : FrameId} (hi : s.threads[i]? = some t) (returned : t.stage = .holding f) :
    (s.pool.pages f).pageId = some t.page ∧ (s.images f).hdr.llsn = s.lastLsn t.page := by
  obtain ⟨-, hframes, hversions⟩ := invs_of_run run
  have hframe := hframes.frame i t f hi (by rw [returned]; rfl)
  exact ⟨(hframes.pool.owned.mapped t.page f).1 hframe, hversions.current t.page f hframe⟩

/-- Thread `i` fetches its page, which is not in the pool, into a free frame. -/
def fetchIntoFree (i : Nat) (image : Page) : List OwnerAction :=
  [.lock i, .tryFetch i, .readStorage i image, .checkFree i, .insertFree i, .unlockMtx i]

/-- Thread `i` fetches its page, which is not in the pool, and evicts a page of the LRU list `start`. -/
def fetchEvicting (i start : Nat) (image : Page) : List OwnerAction :=
  [.lock i, .tryFetch i, .readStorage i image, .checkFree i, .startProbe i start, .probe i,
    .readVictim i, .tryBeginEvict i, .endVictim i, .readAgain i, .fetchVictim i, .replace i,
    .endEvict i, .unlockMtx i]

/-- The example page as of the given version. -/
def pageOfVersion (llsn : Nat) : Page :=
  { Dtx.examplePage with hdr := { Dtx.examplePage.hdr with llsn := llsn } }

/-- In a pool of one frame, a tuple of page 0 is locked, page 16 evicts page 0, and page 0 is read
again. -/
def readAgainRun : List OwnerAction :=
  [.call (.getDataItem 0 0 true 9 1)] ++ fetchIntoFree 0 (pageOfVersion 5) ++
    [.work 0 64, .setNewestLsn 0, .release 0, .call (.get2pcLocalPage 16 0 false 7 11)] ++
    fetchEvicting 1 0 (pageOfVersion 5) ++
    [.work 1 64, .release 1, .call (.getDataItem 0 0 false 12 0)] ++
    fetchEvicting 2 0 (pageOfVersion 6)

/-- Thread 2 has page 0, of version 6, in frame 0. -/
def hasReadAgain (s : OwnerNode) : Bool :=
  match s.threads[2]? with
  | some (Thread.mk (Visit.read 0) _ (Stage.holding 0)) => s.lastLsn 0 == 6
  | _ => false

theorem fetched_page_current_after_eviction : ∃ (s : OwnerNode) (t : Thread),
    s.threads[2]? = some t ∧ t.page = 0 ∧ s.lastLsn 0 = 6 ∧
      (s.images 0).hdr.llsn = s.lastLsn t.page := by
  obtain ⟨s, run, hs⟩ := Run.of_reaches (OwnerNode.step (Dtx.exampleTable true) 0) (fun _ _ => True)
    readAgainRun (init 1 (pageOfVersion 0) (fun _ => 5) 0)
    hasReadAgain (by decide +kernel)
  unfold hasReadAgain at hs
  split at hs
  · rename_i rest hi
    exact ⟨s, _, hi, rfl, eq_of_beq hs, (fetched_page_current run hi rfl).2⟩
  · cases hs

/-- In every run, while a thread has a page in its frame no thread evicts the page, the frame is no
other page's, and a writer is the only thread that has the page. -/
theorem held_page_protected {image : Page} {stored : PageId → Nat} {currentLLSN : Nat}
    (run : Run (OwnerNode.step tab me) (fun _ _ => True) (init n image stored currentLLSN) s)
    {f : FrameId} (hi : s.threads[i]? = some t) (hframe : t.stage.frame = some f)
    (hj : s.threads[j]? = some x) :
    x.stage.evicts ≠ some t.page ∧ (x.stage.frame = some f → x.page = t.page) ∧
      (t.visit.exclusive = true → x.page = t.page → x.stage.hasLock = true → j = i) := by
  obtain ⟨hlocks, hframes, -⟩ := invs_of_run run
  have hlock := Stage.hasLock_of_frame hframe
  refine ⟨(hlocks t.page).not_evicts hi rfl hlock hj, fun hframe' => ?_, fun hx hp hlock' => ?_⟩
  · exact hframes.pool.owned.page_unique (hframes.frame j x f hj hframe')
      (hframes.frame i t f hi hframe)
  · exact (hlocks t.page).writer_unique hi rfl hlock hx hj hp hlock'

theorem held_page_protected_after_eviction : ∃ (s : OwnerNode) (t : Thread),
    s.threads[2]? = some t ∧ t.page = 0 ∧
      ∀ (j : Nat) (x : Thread), s.threads[j]? = some x → x.stage.evicts ≠ some 0 := by
  obtain ⟨s, run, hs⟩ := Run.of_reaches (OwnerNode.step (Dtx.exampleTable true) 0) (fun _ _ => True)
    readAgainRun (init 1 (pageOfVersion 0) (fun _ => 5) 0) hasReadAgain (by decide +kernel)
  unfold hasReadAgain at hs
  split at hs
  · rename_i rest hi
    exact ⟨s, _, hi, rfl, fun j x hj => (held_page_protected run hi rfl hj).1⟩
  · cases hs

end OwnerNode

end BufferPool
