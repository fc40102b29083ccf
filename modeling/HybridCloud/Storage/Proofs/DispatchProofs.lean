import HybridCloud.Storage.Proofs.RedoProofs

/-!
# `Dispatch`: parking and releasing the records of a page

`chains` gives for every page the records of all nodes, in the order of the page's LLSN chain.
`ReplayInv` is the invariant of replay: every page stands somewhere in its chain, the parked records
of a page lie beyond the next one to apply, and a record that was read is either applied or parked.
The disk was a legal intermediate state (`Interrupted`) after every single write, which is what a
crash leaves behind.
-/

namespace Storage

open Outcome LogReplay

/-- Every chain belongs to its page and applies to the stored page without a failed check. -/
structure ChainsApply (d₀ : Disk) (chains : PageKey → List LogRecord) : Prop where
  owns : ∀ key, ∀ log ∈ chains key, log.pageForLog = some key
  applies : ∀ key, chains key ≠ [] → ∃ fileHdr p₀ p₁, d₀.readFileHdr key.1 = .next fileHdr ∧
    d₀.page key = some p₀ ∧ (heapRedo fileHdr).redoAll (chains key) p₀ = .next p₁

/-- On the disk `d` the page `key` stands behind the records `done` of its chain; redo of the first
record of `todo` may have been started. -/
def PageAt (d₀ d : Disk) (key : PageKey) (done todo : List LogRecord) : Prop :=
  ∀ fileHdr p₀, d₀.readFileHdr key.1 = .next fileHdr → d₀.page key = some p₀ →
    ∃ p, d.page key = some p ∧ (heapRedo fileHdr).Position p₀ done todo p

/-- The disk is what some replay of the chains on `d₀` leaves when it is cut off. -/
structure Interrupted (d₀ : Disk) (chains : PageKey → List LogRecord) (d : Disk) : Prop where
  fileHdr : ∀ table, d.readFileHdr table = d₀.readFileHdr table
  missing : ∀ key, d₀.page key = none → d.page key = none
  pages : ∀ key, ∃ done todo, chains key = done ++ todo ∧ PageAt d₀ d key done todo

/-- The write calls made in a row. -/
def Disk.replay (d : Disk) (ws : List (PageKey × PageWrite)) : Disk :=
  ws.foldl (fun d w => d.perform w.1 w.2) d

/-- The state of one page: where it stands and which of its records are parked. -/
structure KeyInv (d₀ : Disk) (chains : PageKey → List LogRecord) (seen : LogRecord → Prop)
    (s : LogReplay) (key : PageKey) (done todo : List LogRecord) : Prop where
  split : chains key = done ++ todo
  page : PageAt d₀ s.disk key done todo
  parked : ∀ log ∈ s.waiting, log.pageForLog = some key → log ∈ todo.tail
  seen : ∀ log ∈ chains key, seen log → log ∈ done ∨ log ∈ s.waiting

/-- The invariant of replay, started on the disk `d₁`, when the records in `seen` were read. -/
structure ReplayInv (d₀ d₁ : Disk) (chains : PageKey → List LogRecord) (seen : LogRecord → Prop)
    (s : LogReplay) : Prop where
  fileHdr : ∀ table, s.disk.readFileHdr table = d₀.readFileHdr table
  missing : ∀ key, d₀.page key = none → s.disk.page key = none
  pending : s.pendingRecords = s.waiting.length
  nodup : s.waiting.Nodup
  known : ∀ log ∈ s.waiting, ∃ key, log ∈ chains key ∧ seen log
  keys : ∀ key, ∃ done todo, KeyInv d₀ chains seen s key done todo
  disk : s.disk = d₁.replay s.writes
  crash : ∀ us, us <+: s.writes → Interrupted d₀ chains (d₁.replay us)

section Disk

variable {d₀ d : Disk} {key key' : PageKey} {done todo : List LogRecord}
  {ws : List PageWrite}

theorem Disk.replay_append (xs ys : List (PageKey × PageWrite)) :
    d.replay (xs ++ ys) = (d.replay xs).replay ys := by
  simp [Disk.replay]

theorem Disk.replay_map (ws : List PageWrite) :
    d.replay (ws.map (Prod.mk key)) = d.performAll key ws := by
  simp [Disk.replay, Disk.performAll, List.foldl_map]

theorem PageAt.performAll_of_ne (h : PageAt d₀ d key' done todo) (hne : key' ≠ key) :
    PageAt d₀ (d.performAll key ws) key' done todo := by
  intro fileHdr p₀ hf hp
  obtain ⟨p, hp, hpos⟩ := h fileHdr p₀ hf hp
  exact ⟨p, by rw [Disk.page_performAll_of_ne hne, hp], hpos⟩

theorem Interrupted.performAll {chains : PageKey → List LogRecord}
    (h : Interrupted d₀ chains d) (hsplit : chains key = done ++ todo)
    (hpage : PageAt d₀ (d.performAll key ws) key done todo) :
    Interrupted d₀ chains (d.performAll key ws) where
  fileHdr table := by rw [Disk.readFileHdr_performAll, h.fileHdr]
  missing key' hnone := Disk.page_performAll_of_none (h.missing key' hnone)
  pages key' := by
    by_cases hkey : key' = key
    · subst hkey
      exact ⟨done, todo, hsplit, hpage⟩
    · obtain ⟨done', todo', hsplit', hpage'⟩ := h.pages key'
      exact ⟨done', todo', hsplit', hpage'.performAll_of_ne hkey⟩

end Disk

section Step

variable {d₀ d₁ : Disk} {chains : PageKey → List LogRecord} {seen seen' : LogRecord → Prop}
  {s : LogReplay} {key : PageKey} {done todo rest : List LogRecord} {log : LogRecord}

section

variable (h : ReplayInv d₀ d₁ chains seen s)
include h

theorem ReplayInv.interrupted :
    Interrupted d₀ chains s.disk := by
  rw [h.disk]
  exact h.crash _ List.prefix_rfl

theorem ReplayInv.congr_seen (hsame : ∀ key, ∀ log ∈ chains key, seen log ↔ seen' log) :
    ReplayInv d₀ d₁ chains seen' s where
  fileHdr := h.fileHdr
  missing := h.missing
  pending := h.pending
  nodup := h.nodup
  known log hlog := by
    obtain ⟨key, hmem, hseen⟩ := h.known log hlog
    exact ⟨key, hmem, (hsame key log hmem).1 hseen⟩
  keys key := by
    obtain ⟨done, todo, hk⟩ := h.keys key
    refine ⟨done, todo, hk.split, hk.page, hk.parked, fun log hmem hseen => ?_⟩
    exact hk.seen log hmem ((hsame key log hmem).2 hseen)
  disk := h.disk
  crash := h.crash

theorem ReplayInv.setStreams (streams : Nat → Stream) :
    ReplayInv d₀ d₁ chains seen { s with streams := streams } where
  fileHdr := h.fileHdr
  missing := h.missing
  pending := h.pending
  nodup := h.nodup
  known := h.known
  keys key := by
    obtain ⟨done, todo, hk⟩ := h.keys key
    exact ⟨done, todo, hk.split, hk.page, hk.parked, hk.seen⟩
  disk := h.disk
  crash := h.crash

end

theorem KeyInv.linked (hc : ChainsApply d₀ chains) (hk : KeyInv d₀ chains seen s key done todo)
    (hne : chains key ≠ []) :
    ∃ fileHdr p₀ p₁ p, d₀.readFileHdr key.1 = .next fileHdr ∧ d₀.page key = some p₀ ∧
      (heapRedo fileHdr).redoAll (done ++ todo) p₀ = .next p₁ ∧
      s.disk.page key = some p ∧ (heapRedo fileHdr).Position p₀ done todo p ∧
      Linked LogRecord.lsn LogRecord.prevLsn p₀.hdr.llsn done ∧
      Linked LogRecord.lsn LogRecord.prevLsn p.hdr.llsn todo ∧
      p.hdr.llsn = versionAfter LogRecord.lsn p₀.hdr.llsn done := by
  obtain ⟨fileHdr, p₀, p₁, hf, hp₀, hall⟩ := hc.applies key hne
  obtain ⟨p, hp, hpos⟩ := hk.page fileHdr p₀ hf hp₀
  rw [hk.split] at hall
  have hversion : p.hdr.llsn = versionAfter LogRecord.lsn p₀.hdr.llsn done := hpos.version_eq
  have hlinked : Linked LogRecord.lsn LogRecord.prevLsn p₀.hdr.llsn (done ++ todo) :=
    (RedoModel.linked_of_redoAll hall).1
  obtain ⟨hdone, htodo⟩ := linked_append.1 hlinked
  exact ⟨fileHdr, p₀, p₁, p, hf, hp₀, hall, hp, hpos, hdone, hversion ▸ htodo, hversion⟩

theorem ChainsApply.nodup (hc : ChainsApply d₀ chains) (key : PageKey) : (chains key).Nodup := by
  by_cases hne : chains key = []
  · rw [hne]
    exact List.nodup_nil
  · obtain ⟨_, _, _, -, -, hall⟩ := hc.applies key hne
    exact (RedoModel.linked_of_redoAll hall).1.nodup

/-- What redo of the next record of the page `key` leaves behind. -/
structure AppliedNext (d₀ d₁ : Disk) (chains : PageKey → List LogRecord) (s s' : LogReplay)
    (key : PageKey) (done rest : List LogRecord) : Prop where
  waiting : s'.waiting = s.waiting
  pending : s'.pendingRecords = s.pendingRecords
  streams : s'.streams = s.streams
  fileHdr : ∀ table, s'.disk.readFileHdr table = d₀.readFileHdr table
  missing : ∀ key, d₀.page key = none → s'.disk.page key = none
  disk : s'.disk = d₁.replay s'.writes
  crash : ∀ us, us <+: s'.writes → Interrupted d₀ chains (d₁.replay us)
  page : PageAt d₀ s'.disk key done rest
  others : ∀ key', key' ≠ key → ∀ done' todo', PageAt d₀ s.disk key' done' todo' →
    PageAt d₀ s'.disk key' done' todo'

/-- Redo of the next record of a page succeeds, also when it had been started before, and the disk
was a legal intermediate state after each of its writes. -/
theorem applySingleLog_next (hc : ChainsApply d₀ chains)
    (h : ReplayInv d₀ d₁ chains seen s)
    (hk : KeyInv d₀ chains seen s key done (log :: rest)) :
    ∃ s', s.applySingleLog key log = .next s' ∧
      AppliedNext d₀ d₁ chains s s' key (done ++ [log]) rest := by
  have hmem : log ∈ chains key := by simp [hk.split]
  obtain ⟨fileHdr, p₀, p₁, p, hf, hp₀, hall, hp, hpos, -⟩ :=
    hk.linked hc (List.ne_nil_of_mem hmem)
  obtain ⟨ws, hws, hadvance, hstay⟩ := hpos.redo_next hall
  replace hws : log.body.redoWrites fileHdr log p = .next ws := by
    rw [← redoOnPage_of_key (hc.owns key log hmem)]
    exact hws
  have happly : s.applySingleLog key log = .next
      { s with
        disk := s.disk.performAll key ws
        writes := s.writes ++ ws.map (Prod.mk key) } := by
    simp only [applySingleLog, h.fileHdr, hf, Disk.readPage_eq_next.2 hp, next_bind, hws, pure_def]
  -- where the page stands after some of the writes
  have hpage : ∀ us done' todo', (heapRedo fileHdr).Position p₀ done' todo'
      (us.foldl Page.perform p) → PageAt d₀ (s.disk.performAll key us) key done' todo' := by
    intro us done' todo' hpos' fileHdr' p₀' hf' hp₀'
    obtain rfl : fileHdr = fileHdr' := next.inj (hf.symm.trans hf')
    obtain rfl : p₀ = p₀' := Option.some.inj (hp₀.symm.trans hp₀')
    exact ⟨_, Disk.page_performAll_of_some hp, hpos'⟩
  refine ⟨_, happly, rfl, rfl, rfl, ?_, ?_, ?_, ?_, hpage ws _ _ hadvance, ?_⟩
  · intro table
    rw [Disk.readFileHdr_performAll, h.fileHdr]
  · intro key' hnone
    exact Disk.page_performAll_of_none (h.missing key' hnone)
  · rw [Disk.replay_append, ← h.disk, Disk.replay_map]
  · intro us hus
    rcases List.prefix_or_prefix_of_prefix hus (List.prefix_append s.writes _) with hus' | ⟨t, rfl⟩
    · exact h.crash us hus'
    · -- cut off within the writes of this record
      have ht : t <+: ws.map (Prod.mk key) := (List.prefix_append_right_inj _).1 hus
      obtain ⟨vs, hvs, rfl⟩ : ∃ vs, vs <+: ws ∧ t = vs.map (Prod.mk key) := by
        rw [List.prefix_iff_eq_take] at ht
        refine ⟨ws.take t.length, List.take_prefix _ _, ?_⟩
        rw [List.map_take, ← ht]
      rw [Disk.replay_append, ← h.disk, Disk.replay_map]
      by_cases hvs' : vs = ws
      · subst hvs'
        have hsplit : chains key = (done ++ [log]) ++ rest := by
          rw [hk.split, List.append_assoc, List.singleton_append]
        exact h.interrupted.performAll hsplit (hpage vs _ _ hadvance)
      · exact h.interrupted.performAll hk.split (hpage vs _ _ (hstay vs hvs hvs'))
  · intro key' hne done' todo' hpage'
    exact hpage'.performAll_of_ne hne

/-- The invariant after a record of page `key` was redone and some parked records were taken out:
only the state of the page itself has to be shown. -/
theorem AppliedNext.replayInv {s' : LogReplay} {waiting : List LogRecord} (seen' : LogRecord → Prop)
    (ha : AppliedNext d₀ d₁ chains s s' key done rest) (h : ReplayInv d₀ d₁ chains seen s)
    (hsub : waiting.Sublist s.waiting) (hseen : ∀ log, seen log → log ∉ waiting ∨ seen' log)
    (hother : ∀ key', key' ≠ key → ∀ log ∈ chains key', seen' log → seen log)
    (hkeep : ∀ log ∈ s.waiting, log.pageForLog ≠ some key → log ∈ waiting)
    (howns : ∀ key, ∀ log ∈ chains key, log.pageForLog = some key)
    (hkey : ∃ done todo, KeyInv d₀ chains seen'
      { s' with waiting := waiting, pendingRecords := waiting.length } key done todo) :
    ReplayInv d₀ d₁ chains seen'
      { s' with waiting := waiting, pendingRecords := waiting.length } where
  fileHdr := ha.fileHdr
  missing := ha.missing
  pending := rfl
  nodup := h.nodup.sublist hsub
  known log hlog := by
    obtain ⟨key', hmem, hs⟩ := h.known log (hsub.subset hlog)
    rcases hseen log hs with hnot | hs'
    · exact absurd hlog hnot
    · exact ⟨key', hmem, hs'⟩
  keys key' := by
    by_cases hne : key' = key
    · subst hne
      exact hkey
    · obtain ⟨done', todo', hk'⟩ := h.keys key'
      refine ⟨done', todo', hk'.split, ha.others key' hne _ _ hk'.page, ?_, ?_⟩
      · intro log hlog
        exact hk'.parked log (hsub.subset hlog)
      · intro log hmem hs'
        rcases hk'.seen log hmem (hother key' hne log hmem hs') with hdone | hwait
        · exact .inl hdone
        · refine .inr (hkeep log hwait fun hpage => hne ?_)
          exact Option.some.inj ((howns key' log hmem).symm.trans hpage)
  disk := ha.disk
  crash := ha.crash

/-- The loop of `Dispatch`: it applies a record and every parked record that this releases. -/
theorem applyChain_next (hc : ChainsApply d₀ chains) {fuel : Nat}
    (hfuel : s.waiting.length < fuel) (h : ReplayInv d₀ d₁ chains seen s)
    (hk : KeyInv d₀ chains seen s key done (log :: rest)) :
    ∃ s', applyChain applySingleLog fuel key log s = .next s' ∧
      ReplayInv d₀ d₁ chains (fun r => seen r ∨ r = log) s' ∧ s'.streams = s.streams := by
  induction fuel generalizing s seen done rest log with
  | zero => omega
  | succ fuel ih =>
    have hmem : log ∈ chains key := by simp [hk.split]
    have hsplit : chains key = (done ++ [log]) ++ rest := by simp [hk.split]
    obtain ⟨_, _, _, p, -, -, -, -, -, -, htodo, -⟩ := hk.linked hc (List.ne_nil_of_mem hmem)
    have hrest : Linked LogRecord.lsn LogRecord.prevLsn log.lsn rest := htodo.2.2
    obtain ⟨s₁, happly, ha⟩ := applySingleLog_next hc h hk
    have hwaiting : ∀ r ∈ s.waiting, r.pageForLog = some key → r ∈ rest := hk.parked
    have hother : ∀ key', key' ≠ key → ∀ r ∈ chains key', seen r ∨ r = log → seen r := by
      rintro key' hne r hr (hs | rfl)
      · exact hs
      · exact absurd (Option.some.inj ((hc.owns _ _ hr).symm.trans (hc.owns _ _ hmem))) hne
    have hdone : ∀ r ∈ chains key, seen r ∨ r = log → r ∈ done ++ [log] ∨ r ∈ s.waiting := by
      rintro r hr (hs | rfl)
      · rcases hk.seen r hr hs with hr' | hr'
        · exact .inl (List.mem_append_left _ hr')
        · exact .inr hr'
      · simp
    simp only [applyChain, happly, next_bind, ha.waiting]
    cases hfind : s.waiting.find? (isSuccessor key log.lsn) with
    | none =>
      have hinv := ha.replayInv (fun r => seen r ∨ r = log) h (List.Sublist.refl s.waiting)
        (fun _ hs => .inr (.inl hs)) hother (fun _ hr _ => hr) hc.owns
        ⟨done ++ [log], rest, hsplit, ha.page, ?_, hdone⟩
      · rw [← h.pending, ← ha.waiting, ← ha.pending] at hinv
        exact ⟨s₁, rfl, hinv, ha.streams⟩
      · -- the next record of the page is not parked, or it would have been found
        intro r hr hpage
        have hmemrest := hwaiting r hr hpage
        cases hcase : rest with
        | nil => simp [hcase] at hmemrest
        | cons head tail =>
          rw [hcase] at hmemrest hrest
          rcases List.mem_cons.1 hmemrest with rfl | htail
          · have := List.find?_eq_none.1 hfind r hr
            simp [isSuccessor, hpage, hrest.1] at this
          · exact htail
    | some follower =>
      have hfol : follower ∈ s.waiting := List.mem_of_find?_eq_some hfind
      have hsucc := List.find?_some hfind
      simp only [isSuccessor, Bool.and_eq_true, beq_iff_eq] at hsucc
      obtain ⟨hfolKey, hfolPrev⟩ := hsucc
      -- the parked successor is the next record of the chain
      obtain ⟨tail, rfl⟩ : ∃ tail, rest = follower :: tail := by
        have hmemrest := hwaiting follower hfol hfolKey
        cases hcase : rest with
        | nil => simp [hcase] at hmemrest
        | cons head tail =>
          rw [hcase] at hmemrest hrest
          exact ⟨tail, by rw [hrest.eq_head_of_prev hmemrest hfolPrev]⟩
      have herase : ∀ r, r ∈ s.waiting.erase follower ↔ r ≠ follower ∧ r ∈ s.waiting := fun r =>
        h.nodup.mem_erase_iff
      have hkey : KeyInv d₀ chains (fun r => (seen r ∨ r = log) ∧ r ≠ follower)
          { s₁ with
            waiting := s.waiting.erase follower
            pendingRecords := (s.waiting.erase follower).length } key
          (done ++ [log]) (follower :: tail) := by
        refine ⟨hsplit, ha.page, ?_, ?_⟩
        · intro r hr hpage
          obtain ⟨hne, hr⟩ := (herase r).1 hr
          exact (List.mem_cons.1 (hwaiting r hr hpage)).resolve_left hne
        · rintro r hr ⟨hs, hne⟩
          rcases hdone r hr hs with hr' | hr'
          · exact .inl hr'
          · exact .inr ((herase r).2 ⟨hne, hr'⟩)
      have hinv := ha.replayInv _ h List.erase_sublist
        (fun r hs => by
          by_cases hr : r = follower
          · exact .inl fun hin => ((herase r).1 hin).1 hr
          · exact .inr ⟨.inl hs, hr⟩)
        (fun key' hne r hr hs => hother key' hne r hr hs.1)
        (fun r hr hpage => (herase r).2 ⟨fun heq => hpage (heq ▸ hfolKey), hr⟩) hc.owns
        ⟨_, _, hkey⟩
      have hlen : (s.waiting.erase follower).length = s₁.pendingRecords - 1 := by
        rw [List.length_erase_of_mem hfol, ha.pending, h.pending]
      have hlt : (s.waiting.erase follower).length < fuel := by
        have := List.length_pos_of_mem hfol
        rw [List.length_erase_of_mem hfol]
        omega
      rw [hlen] at hinv hkey
      obtain ⟨s', hs', hinv', hstreams⟩ := ih (s := { s₁ with
        waiting := s.waiting.erase follower, pendingRecords := s₁.pendingRecords - 1 })
        hlt hinv hkey
      refine ⟨s', hs', hinv'.congr_seen fun key' r _ => ?_, hstreams.trans ha.streams⟩
      obtain ⟨_, -, hseen⟩ := h.known follower hfol
      by_cases hr : r = follower
      · subst hr
        simp [hseen]
      · simp [hr]

theorem dispatch_next (hc : ChainsApply d₀ chains) (h : ReplayInv d₀ d₁ chains seen s)
    (hmem : log ∈ chains key) (hnew : ¬ seen log) :
    ∃ s', s.dispatch applySingleLog log = .next s' ∧
      ReplayInv d₀ d₁ chains (fun r => seen r ∨ r = log) s' ∧ s'.streams = s.streams := by
  obtain ⟨done, todo, hk⟩ := h.keys key
  obtain ⟨_, p₀, _, p, -, -, -, hp, -, hdone, htodo, hversion⟩ :=
    hk.linked hc (List.ne_nil_of_mem hmem)
  have howns := hc.owns key log hmem
  simp only [dispatch, howns, Disk.readPage_eq_next.2 hp, next_bind]
  have hsplit := hmem
  rw [hk.split, List.mem_append] at hsplit
  rcases hsplit with hin | hin
  · -- applied by an earlier replay
    have hle : log.lsn ≤ p.hdr.llsn := hversion ▸ (hdone.lsn_bounds hin).2
    rw [if_pos hle]
    refine ⟨s, rfl, ⟨h.fileHdr, h.missing, h.pending, h.nodup, ?_, ?_, h.disk, h.crash⟩, rfl⟩
    · intro r hr
      obtain ⟨key', hr', hs⟩ := h.known r hr
      exact ⟨key', hr', .inl hs⟩
    · intro key'
      obtain ⟨done', todo', hk'⟩ := h.keys key'
      by_cases hne : key' = key
      · subst hne
        refine ⟨done, todo, hk.split, hk.page, hk.parked, ?_⟩
        rintro r hr (hs | rfl)
        · exact hk.seen r hr hs
        · exact .inl hin
      · refine ⟨done', todo', hk'.split, hk'.page, hk'.parked, ?_⟩
        rintro r hr (hs | rfl)
        · exact hk'.seen r hr hs
        · exact absurd (Option.some.inj ((hc.owns _ _ hr).symm.trans howns)) hne
  · obtain ⟨hlow, -⟩ := htodo.lsn_bounds hin
    rw [if_neg (by omega)]
    cases todo with
    | nil => cases hin
    | cons head tail =>
      rcases List.mem_cons.1 hin with rfl | htail
      · -- the next record of the page
        have hprev : log.prevLsn = p.hdr.llsn := htodo.1
        rw [if_neg (by omega), cassert_bind (by omega)]
        exact applyChain_next hc (Nat.lt_succ_self _) h hk
      · -- its predecessor has not been applied
        have hlater : head.lsn ≤ log.prevLsn := htodo.2.2.le_prev htail
        have hhead : p.hdr.llsn < head.lsn := htodo.2.1
        rw [if_pos (by omega)]
        have hnone : s.waiting.find? (isSuccessor key log.prevLsn) = none := by
          refine List.find?_eq_none.2 fun r hr => ?_
          simp only [isSuccessor, Bool.and_eq_true, beq_iff_eq, not_and]
          intro hpage hprev
          obtain ⟨key', hr', hs⟩ := h.known r hr
          have hrtail : r ∈ tail := hk.parked r hr hpage
          exact hnew (htodo.2.2.prev_injective hrtail htail hprev ▸ hs)
        have hnotin : log ∉ s.waiting := by
          intro hin
          obtain ⟨_, -, hs⟩ := h.known log hin
          exact hnew hs
        rw [cassert_bind hnone]
        refine ⟨_, rfl, ⟨h.fileHdr, h.missing, ?_, ?_, ?_, ?_, h.disk, h.crash⟩, rfl⟩
        · simp [h.pending]
        · exact List.nodup_append.2 ⟨h.nodup, by simp, by
            intro a ha b hb heq
            exact hnotin (by simpa [← List.mem_singleton.1 hb, ← heq] using ha)⟩
        · intro r hr
          rcases List.mem_append.1 hr with hr | hr
          · obtain ⟨key', hr', hs⟩ := h.known r hr
            exact ⟨key', hr', .inl hs⟩
          · exact ⟨key, List.mem_singleton.1 hr ▸ hmem, .inr (List.mem_singleton.1 hr)⟩
        · intro key'
          obtain ⟨done', todo', hk'⟩ := h.keys key'
          by_cases hne : key' = key
          · subst hne
            refine ⟨done, head :: tail, hk.split, hk.page, ?_, ?_⟩
            · intro r hr hpage
              rcases List.mem_append.1 hr with hr | hr
              · exact hk.parked r hr hpage
              · exact List.mem_singleton.1 hr ▸ htail
            · rintro r hr (hs | rfl)
              · rcases hk.seen r hr hs with hr' | hr'
                · exact .inl hr'
                · exact .inr (List.mem_append_left _ hr')
              · simp
          · refine ⟨done', todo', hk'.split, hk'.page, ?_, ?_⟩
            · intro r hr hpage
              rcases List.mem_append.1 hr with hr | hr
              · exact hk'.parked r hr hpage
              · rw [List.mem_singleton.1 hr, howns] at hpage
                exact absurd (Option.some.inj hpage).symm hne
            · rintro r hr (hs | rfl)
              · rcases hk'.seen r hr hs with hr' | hr'
                · exact .inl hr'
                · exact .inr (List.mem_append_left _ hr')
              · exact absurd (Option.some.inj ((hc.owns _ _ hr).symm.trans howns)) hne

end Step

end Storage
