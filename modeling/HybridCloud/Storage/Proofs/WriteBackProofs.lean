import HybridCloud.Storage.WriteBack

/-!
# The stored version never goes back while the two writers do not overlap

`WriteInv` places the stored page in the chain of the records made so far: it is the page after the
records `done`, up to the writes that the replay thread has made for the next record. A `WritePage`
that lands while the thread is not in the middle of a record moves the page to the end of the chain.
-/

namespace Storage

namespace WriteBack

open Outcome LogReplay

/-- How the stored page and the replay thread are related, when the page stands at `pd`. -/
def ThreadAt (fileHdr : RmFileHdr) (stored pd : Page) (todo : List LogRecord) :
    ReplayThread → Prop
  | .idle => stored = pd
  | .apply log => stored = pd ∧ ∃ rest, todo = log :: rest
  | .readItem log slotNo lockType timeStamp holderNode lockOwnerNode hdr =>
    stored = pd ∧ (∃ rest, todo = log :: rest) ∧
      redoOnPage fileHdr log pd = .next
        [.updateItem slotNo
          ((pd.slots slotNo).item.withLock lockType timeStamp holderNode lockOwnerNode),
          .updateHdr hdr]
  | .write log w ws => (∃ rest, todo = log :: rest) ∧
      ∃ us, redoOnPage fileHdr log pd = .next (us ++ w :: ws) ∧ stored = us.foldl Page.perform pd

/-- The stored page stands behind the records `done`, at the version `pd`. -/
structure WriteInv (fileHdr : RmFileHdr) (key : PageKey) (p₀ : Page) (s : WriteBack)
    (done todo : List LogRecord) (pd : Page) : Prop where
  split : s.made = done ++ todo
  owns : ∀ log ∈ s.made, log.pageForLog = some key
  latest : (heapRedo fileHdr).redoAll s.made p₀ = .next s.latest
  base : (heapRedo fileHdr).redoAll done p₀ = .next pd
  thread : ThreadAt fileHdr s.stored pd todo s.thread
  image : ∀ c, s.call = some c → c.image = s.latest
  landed : ∀ c, s.call = some c → c.landed = true → todo = []
  returned : s.returned ≤ pd.hdr.llsn
  nodup : s.waiting.Nodup
  known : ∀ log ∈ s.waiting, log ∈ s.consumed
  parked : ∀ log ∈ s.waiting, log ∈ done ∨ log ∈ todo.tail
  made : ∀ log ∈ s.consumed, log ∈ s.made
  seen : ∀ log ∈ s.consumed, log ∈ done ∨ log ∈ s.waiting ∨ s.thread.current = some log

section Facts

variable {fileHdr : RmFileHdr} {key : PageKey} {p₀ pd : Page} {s : WriteBack}
  {done todo rest : List LogRecord} {log : LogRecord}

section

variable (h : WriteInv fileHdr key p₀ s done todo pd)
include h

theorem WriteInv.redo_todo :
    (heapRedo fileHdr).redoAll todo pd = .next s.latest := by
  have hall := h.latest
  rw [h.split] at hall
  obtain ⟨p, hp, hrest⟩ := RedoModel.redoAll_append.1 hall
  rwa [← next.inj (h.base.symm.trans hp)] at hrest

theorem WriteInv.linked :
    Linked LogRecord.lsn LogRecord.prevLsn p₀.hdr.llsn s.made ∧
      Linked LogRecord.lsn LogRecord.prevLsn p₀.hdr.llsn done ∧
      Linked LogRecord.lsn LogRecord.prevLsn pd.hdr.llsn todo ∧
      pd.hdr.llsn = versionAfter LogRecord.lsn p₀.hdr.llsn done ∧
      s.latest.hdr.llsn = versionAfter LogRecord.lsn pd.hdr.llsn todo :=
  ⟨(RedoModel.linked_of_redoAll h.latest).1, (RedoModel.linked_of_redoAll h.base).1,
    (RedoModel.linked_of_redoAll h.redo_todo).1, (RedoModel.linked_of_redoAll h.base).2,
    (RedoModel.linked_of_redoAll h.redo_todo).2⟩

theorem WriteInv.le_latest :
    pd.hdr.llsn ≤ s.latest.hdr.llsn := by
  obtain ⟨-, -, htodo, -, hlatest⟩ := h.linked
  exact hlatest ▸ htodo.le_versionAfter

end

theorem WriteInv.redo_next (h : WriteInv fileHdr key p₀ s done (log :: rest) pd) :
    ∃ ws, redoOnPage fileHdr log pd = .next ws ∧ ws ≠ [] ∧
      log.body.redoWrites fileHdr log pd = .next ws := by
  obtain ⟨ws, hws, -⟩ := RedoModel.redoAll_cons.1 h.redo_todo
  replace hws : redoOnPage fileHdr log pd = .next ws := hws
  have hkey : log.pageForLog = some key := h.owns log (by simp [h.split])
  refine ⟨ws, hws, ?_, by rw [← redoOnPage_of_key hkey, hws]⟩
  obtain ⟨-, hshape⟩ := redoOnPage_shape hws
  cases hshape <;> simp

theorem ThreadAt.version {stored : Page} {t : ReplayThread}
    (h : ThreadAt fileHdr stored pd todo t) : stored.hdr.llsn = pd.hdr.llsn := by
  cases t with
  | idle => rw [h]
  | apply log => rw [h.1]
  | readItem log slotNo lockType timeStamp holderNode lockOwnerNode hdr => rw [h.1]
  | write log w ws =>
    obtain ⟨-, us, hws, rfl⟩ := h
    exact (redoOnPage_again hws (List.prefix_append us _) (by simp)).1

theorem ThreadAt.append {stored : Page} {t : ReplayThread}
    (h : ThreadAt fileHdr stored pd todo t) (more : List LogRecord) :
    ThreadAt fileHdr stored pd (todo ++ more) t := by
  cases t with
  | idle => exact h
  | apply log =>
    obtain ⟨hstored, rest, rfl⟩ := h
    exact ⟨hstored, rest ++ more, rfl⟩
  | readItem log slotNo lockType timeStamp holderNode lockOwnerNode hdr =>
    obtain ⟨hstored, ⟨rest, rfl⟩, hredo⟩ := h
    exact ⟨hstored, ⟨rest ++ more, rfl⟩, hredo⟩
  | write log w ws =>
    obtain ⟨⟨rest, rfl⟩, hredo⟩ := h
    exact ⟨⟨rest ++ more, rfl⟩, hredo⟩

theorem WriteInv.stored_of_idle (h : WriteInv fileHdr key p₀ s done todo pd)
    (hidle : s.thread.current = none) : s.thread = .idle ∧ s.stored = pd := by
  have hthread := h.thread
  cases hcase : s.thread with
  | idle =>
    rw [hcase] at hthread
    exact ⟨rfl, hthread⟩
  | _ => simp [hcase, ReplayThread.current] at hidle

end Facts

section Steps

variable {fileHdr : RmFileHdr} {key : PageKey} {p₀ pd : Page} {s s' : WriteBack}
  {done todo rest : List LogRecord} {log : LogRecord}

theorem WriteInv.init (p₀ : Page) : WriteInv fileHdr key p₀ (init p₀) [] [] p₀ where
  split := rfl
  owns := by simp [WriteBack.init]
  latest := rfl
  base := rfl
  thread := rfl
  image := by simp [WriteBack.init]
  landed := by simp [WriteBack.init]
  returned := le_rfl
  nodup := List.nodup_nil
  known := by simp [WriteBack.init]
  parked := by simp [WriteBack.init]
  made := by simp [WriteBack.init]
  seen := by simp [WriteBack.init]

section

variable (h : WriteInv fileHdr key p₀ s done todo pd)
include h

theorem WriteInv.modify {ws : List PageWrite}
    (hcall : s.call = none) (hkey : log.pageForLog = some key)
    (hws : redoOnPage fileHdr log s.latest = .next ws) :
    WriteInv fileHdr key p₀
      { s with made := s.made ++ [log], latest := ws.foldl Page.perform s.latest }
      done (todo ++ [log]) pd where
  split := by simp [h.split]
  owns r hr := by
    rcases List.mem_append.1 hr with hr | hr
    · exact h.owns r hr
    · rw [List.mem_singleton.1 hr, hkey]
  latest := RedoModel.redoAll_append.2 ⟨_, h.latest, RedoModel.redoAll_cons.2 ⟨ws, hws, rfl⟩⟩
  base := h.base
  thread := h.thread.append [log]
  image c hc := by simp [hcall] at hc
  landed c hc := by simp [hcall] at hc
  returned := h.returned
  nodup := h.nodup
  known := h.known
  parked r hr := by
    rcases h.parked r hr with hr | hr
    · exact .inl hr
    · cases todo with
      | nil => cases hr
      | cons head tail => exact .inr (List.mem_append_left _ hr)
  made r hr := List.mem_append_left _ (h.made r hr)
  seen := h.seen

theorem WriteInv.writePage :
    WriteInv fileHdr key p₀ { s with call := some { image := s.latest, landed := false } }
      done todo pd where
  split := h.split
  owns := h.owns
  latest := h.latest
  base := h.base
  thread := h.thread
  image c hc := by rw [← Option.some.inj hc]
  landed c hc hl := by
    rw [← Option.some.inj hc] at hl
    cases hl
  returned := h.returned
  nodup := h.nodup
  known := h.known
  parked := h.parked
  made := h.made
  seen := h.seen

theorem WriteInv.land {c : WriteCall}
    (hcall : s.call = some c) (hidle : s.thread.current = none) :
    WriteInv fileHdr key p₀ { s with stored := c.image, call := some { c with landed := true } }
      s.made [] s.latest where
  split := (List.append_nil _).symm
  owns := h.owns
  latest := h.latest
  base := h.latest
  thread := by
    rw [(h.stored_of_idle hidle).1]
    exact h.image c hcall
  image c' hc' := by
    rw [← Option.some.inj hc']
    exact h.image c hcall
  landed _ _ _ := rfl
  returned := h.returned.trans h.le_latest
  nodup := h.nodup
  known := h.known
  parked r hr := .inl (h.made r (h.known r hr))
  made := h.made
  seen r hr := .inl (h.made r hr)

theorem WriteInv.reply {c : WriteCall}
    (hcall : s.call = some c) (hlanded : c.landed = true) :
    WriteInv fileHdr key p₀ { s with call := none, returned := c.image.hdr.llsn }
      done todo pd where
  split := h.split
  owns := h.owns
  latest := h.latest
  base := h.base
  thread := h.thread
  image c hc := by cases hc
  landed c hc := by cases hc
  returned := by
    have hnil := h.landed c hcall hlanded
    have hrest := h.redo_todo
    rw [hnil] at hrest
    rw [h.image c hcall, next.inj hrest]
  nodup := h.nodup
  known := h.known
  parked := h.parked
  made := h.made
  seen := h.seen

theorem WriteInv.dispatch
    (hidle : s.thread.current = none) (hmade : log ∈ s.made) (hnew : log ∉ s.consumed) :
    ∃ s', s.dispatch key log = .next s' ∧ WriteInv fileHdr key p₀ s' done todo pd := by
  obtain ⟨hthread, hstored⟩ := h.stored_of_idle hidle
  obtain ⟨hlinked, hdone, htodo, hversion, -⟩ := h.linked
  have hmade' : ∀ r ∈ log :: s.consumed, r ∈ s.made := by
    intro r hr
    rcases List.mem_cons.1 hr with rfl | hr
    · exact hmade
    · exact h.made r hr
  have hseen : ∀ r ∈ s.consumed, r ∈ done ∨ r ∈ s.waiting := by
    intro r hr
    rcases h.seen r hr with hr | hr | hr
    · exact .inl hr
    · exact .inr hr
    · rw [hidle] at hr
      cases hr
  have hsplit := hmade
  rw [h.split, List.mem_append] at hsplit
  have hstoredVersion : s.stored.hdr.llsn = pd.hdr.llsn := by rw [hstored]
  simp only [WriteBack.dispatch]
  rcases hsplit with hin | hin
  · have hle := (hdone.lsn_bounds hin).2
    rw [if_pos (by omega)]
    refine ⟨_, rfl, h.split, h.owns, h.latest, h.base, h.thread, h.image, h.landed, h.returned,
      h.nodup, fun r hr => List.mem_cons_of_mem _ (h.known r hr), h.parked, hmade', ?_⟩
    intro r hr
    rcases List.mem_cons.1 hr with rfl | hr
    · exact .inl hin
    · exact h.seen r hr
  · have hlow := (htodo.lsn_bounds hin).1
    rw [if_neg (by omega)]
    cases todo with
    | nil => cases hin
    | cons head tail =>
      rcases List.mem_cons.1 hin with rfl | htail
      · have hprev : log.prevLsn = pd.hdr.llsn := htodo.1
        rw [if_neg (by omega), cassert_bind (by omega)]
        refine ⟨_, rfl, h.split, h.owns, h.latest, h.base, ⟨hstored, tail, rfl⟩, h.image,
          h.landed, h.returned, h.nodup, fun r hr => List.mem_cons_of_mem _ (h.known r hr),
          h.parked, hmade', ?_⟩
        intro r hr
        rcases List.mem_cons.1 hr with rfl | hr
        · exact .inr (.inr rfl)
        · exact (hseen r hr).imp id .inl
      · have hlater : head.lsn ≤ log.prevLsn := htodo.2.2.le_prev htail
        have hhead : pd.hdr.llsn < head.lsn := htodo.2.1
        have hnone : s.waiting.find? (isSuccessor key log.prevLsn) = none := by
          refine List.find?_eq_none.2 fun r hr => ?_
          simp only [isSuccessor, Bool.and_eq_true, beq_iff_eq, not_and]
          intro _ hprev
          have hr' := h.known r hr
          exact hnew (hlinked.prev_injective (h.made r hr') hmade hprev ▸ hr')
        rw [if_pos (by omega), cassert_bind hnone]
        refine ⟨_, rfl, h.split, h.owns, h.latest, h.base, h.thread, h.image, h.landed,
          h.returned, ?_, ?_, ?_, hmade', ?_⟩
        · refine List.nodup_append.2 ⟨h.nodup, by simp, ?_⟩
          rintro r hr _ hlog rfl
          exact hnew (List.mem_singleton.1 hlog ▸ h.known r hr)
        · intro r hr
          rcases List.mem_append.1 hr with hr | hr
          · exact List.mem_cons_of_mem _ (h.known r hr)
          · rw [List.mem_singleton.1 hr]
            exact List.mem_cons_self
        · intro r hr
          rcases List.mem_append.1 hr with hr | hr
          · exact h.parked r hr
          · rw [List.mem_singleton.1 hr]
            exact .inr htail
        · intro r hr
          rcases List.mem_cons.1 hr with rfl | hr
          · exact .inr (.inl (by simp))
          · rcases hseen r hr with hr | hr
            · exact .inl hr
            · exact .inr (.inl (List.mem_append_left _ hr))

theorem WriteInv.applyRead (hthread : s.thread = .apply log) :
    ∃ t, applyRead fileHdr log s.stored = .next t ∧
      WriteInv fileHdr key p₀ { s with thread := t } done todo pd := by
  have hat := h.thread
  rw [hthread] at hat
  obtain ⟨rfl, rest, rfl⟩ := hat
  obtain ⟨ws, hws, hne, hwrites⟩ := h.redo_next
  have hcurrent : ∀ r ∈ s.consumed, r ∈ done ∨ r ∈ s.waiting ∨ some log = some r := by
    intro r hr
    have := h.seen r hr
    rwa [hthread] at this
  -- the invariant only needs the new place of the thread
  have hplace : ∀ t : ReplayThread, t.current = some log →
      ThreadAt fileHdr s.stored s.stored (log :: rest) t →
      WriteInv fileHdr key p₀ { s with thread := t } done (log :: rest) s.stored := by
    intro t ht hat
    refine ⟨h.split, h.owns, h.latest, h.base, hat, h.image, h.landed, h.returned, h.nodup,
      h.known, h.parked, h.made, ?_⟩
    intro r hr
    rw [ht]
    exact hcurrent r hr
  obtain ⟨w, ws', rfl⟩ := List.exists_cons_of_ne_nil hne
  unfold WriteBack.applyRead
  cases hbody : log.body with
  | lock table rid lockType timeStamp holderNode lockOwnerNode =>
    rw [hbody] at hwrites
    simp only [LogBody.redoWrites, bind_eq_next, cassert_eq_next, pure_def, next.injEq] at hwrites
    obtain ⟨-, hslot, -, hfollows, heq⟩ := hwrites
    refine ⟨.readItem log rid.slotNo lockType timeStamp holderNode lockOwnerNode
      (s.stored.hdr.advance log.lsn),
      by simp only [cassert_bind hslot, cassert_bind hfollows, pure_def], ?_⟩
    refine hplace _ rfl ⟨rfl, ⟨rest, rfl⟩, ?_⟩
    rw [hws, heq]
  | _ =>
    rw [hbody] at hwrites
    refine ⟨.write log w ws', by simp only [hwrites, next_bind, pure_def], ?_⟩
    exact hplace _ rfl ⟨⟨rest, rfl⟩, [], hws, rfl⟩

end

/-- After the last write of a record the thread goes on with a parked successor or becomes idle. -/
theorem WriteInv.applied (h : WriteInv fileHdr key p₀ s done (log :: rest) pd) {w : PageWrite}
    (hthread : s.thread = .write log w []) :
    ∃ pd', pd.hdr.llsn ≤ pd'.hdr.llsn ∧ WriteInv fileHdr key p₀
      (applied key { s with stored := s.stored.perform w } log) (done ++ [log]) rest pd' := by
  have hat := h.thread
  rw [hthread] at hat
  obtain ⟨-, us, hws, hstored⟩ := hat
  have hpage : s.stored.perform w = (us ++ [w]).foldl Page.perform pd := by
    rw [hstored, List.foldl_append]
    rfl
  obtain ⟨hprev, hlt, hlsn⟩ := redoOnPage_version hws
  rw [← hpage] at hlsn
  obtain ⟨hlinked, -, htodo, -⟩ := h.linked
  have hbase : (heapRedo fileHdr).redoAll (done ++ [log]) p₀ = .next (s.stored.perform w) :=
    RedoModel.redoAll_append.2 ⟨pd, h.base, RedoModel.redoAll_cons.2 ⟨_, hws, by
      rw [hpage]
      rfl⟩⟩
  have hsplit : s.made = (done ++ [log]) ++ rest := by simp [h.split]
  have hlanded : ∀ c, s.call = some c → c.landed = true → rest = [] := by
    intro c hc hl
    have := h.landed c hc hl
    cases this
  have hreturned : s.returned ≤ (s.stored.perform w).hdr.llsn := by
    have := h.returned
    omega
  have hparked : ∀ r ∈ s.waiting, r ∈ done ++ [log] ∨ r ∈ rest := by
    intro r hr
    rcases h.parked r hr with hr | hr
    · exact .inl (List.mem_append_left _ hr)
    · exact .inr hr
  have hseen : ∀ r ∈ s.consumed, r ∈ done ++ [log] ∨ r ∈ s.waiting := by
    intro r hr
    rcases h.seen r hr with hr | hr | hr
    · exact .inl (List.mem_append_left _ hr)
    · exact .inr hr
    · rw [hthread] at hr
      rw [← Option.some.inj hr]
      exact .inl (by simp)
  have hrest : Linked LogRecord.lsn LogRecord.prevLsn log.lsn rest := htodo.2.2
  refine ⟨s.stored.perform w, by omega, ?_⟩
  unfold WriteBack.applied
  cases hfind : s.waiting.find? (isSuccessor key log.lsn) with
  | none =>
    refine ⟨hsplit, h.owns, h.latest, hbase, rfl, h.image, hlanded, hreturned, h.nodup, h.known,
      ?_, h.made, ?_⟩
    · intro r hr
      rcases hparked r hr with hr' | hr'
      · exact .inl hr'
      · cases hcase : rest with
        | nil => simp [hcase] at hr'
        | cons head tail =>
          rw [hcase] at hr' hrest
          rcases List.mem_cons.1 hr' with rfl | htail
          · have hmade := h.made r (h.known r hr)
            have := List.find?_eq_none.1 hfind r hr
            simp [isSuccessor, h.owns r hmade, hrest.1] at this
          · exact .inr htail
    · intro r hr
      exact (hseen r hr).imp id .inl
  | some follower =>
    have hfol : follower ∈ s.waiting := List.mem_of_find?_eq_some hfind
    have hsucc := List.find?_some hfind
    simp only [isSuccessor, Bool.and_eq_true, beq_iff_eq] at hsucc
    have herase : ∀ r, r ∈ s.waiting.erase follower ↔ r ≠ follower ∧ r ∈ s.waiting := fun r =>
      h.nodup.mem_erase_iff
    -- the records before it were made on older versions
    obtain ⟨tail, rfl⟩ : ∃ tail, rest = follower :: tail := by
      rcases hparked follower hfol with hin | hin
      · have hold : Linked LogRecord.lsn LogRecord.prevLsn p₀.hdr.llsn (done ++ [log]) :=
          (RedoModel.linked_of_redoAll hbase).1
        have hbound := (hold.lsn_bounds hin).2
        rw [versionAfter_concat] at hbound
        have := hold.prev_lt_lsn hin
        omega
      · cases hcase : rest with
        | nil => simp [hcase] at hin
        | cons head tail =>
          rw [hcase] at hin hrest
          exact ⟨tail, by rw [hrest.eq_head_of_prev hin hsucc.2]⟩
    refine ⟨hsplit, h.owns, h.latest, hbase, ⟨rfl, tail, rfl⟩, h.image, hlanded, hreturned,
      h.nodup.sublist List.erase_sublist, fun r hr => h.known r ((herase r).1 hr).2, ?_, h.made, ?_⟩
    · intro r hr
      obtain ⟨hne, hr⟩ := (herase r).1 hr
      exact (hparked r hr).imp id fun hr => (List.mem_cons.1 hr).resolve_left hne
    · intro r hr
      rcases hseen r hr with hr' | hr'
      · exact .inl hr'
      · by_cases hne : r = follower
        · exact .inr (.inr (by rw [hne]; rfl))
        · exact .inr (.inl ((herase r).2 ⟨hne, hr'⟩))

theorem WriteInv.replay (h : WriteInv fileHdr key p₀ s done todo pd) :
    s.replay fileHdr key ≠ .abort ∧
      ∀ s', s.replay fileHdr key = .next s' → ∃ done' todo' pd',
        WriteInv fileHdr key p₀ s' done' todo' pd' ∧ pd.hdr.llsn ≤ pd'.hdr.llsn := by
  unfold WriteBack.replay
  cases hthread : s.thread with
  | idle => simp
  | apply log =>
    obtain ⟨t, ht, hinv⟩ := h.applyRead hthread
    refine ⟨by simp [ht], fun s' hs' => ?_⟩
    simp only [ht, next_bind, pure_def, next.injEq] at hs'
    exact ⟨done, todo, pd, hs' ▸ hinv, le_rfl⟩
  | readItem log slotNo lockType timeStamp holderNode lockOwnerNode hdr =>
    have hat := h.thread
    rw [hthread] at hat
    obtain ⟨hstored, hrest, hredo⟩ := hat
    refine ⟨by simp, fun s' hs' => ?_⟩
    obtain rfl := next.inj hs'
    refine ⟨done, todo, pd, ⟨h.split, h.owns, h.latest, h.base, ⟨hrest, [], ?_, hstored⟩, h.image,
      h.landed, h.returned, h.nodup, h.known, h.parked, h.made, ?_⟩, le_rfl⟩
    · rw [hredo, hstored]
      rfl
    · intro r hr
      have := h.seen r hr
      rwa [hthread] at this
  | write log w ws =>
    have hat := h.thread
    rw [hthread] at hat
    obtain ⟨⟨rest, rfl⟩, us, hws, hstored⟩ := hat
    cases ws with
    | nil =>
      refine ⟨by simp, fun s' hs' => ?_⟩
      obtain rfl := next.inj hs'
      obtain ⟨pd', hle, hinv⟩ := h.applied hthread
      exact ⟨_, _, pd', hinv, hle⟩
    | cons w' ws =>
      refine ⟨by simp, fun s' hs' => ?_⟩
      obtain rfl := next.inj hs'
      refine ⟨done, log :: rest, pd, ⟨h.split, h.owns, h.latest, h.base,
        ⟨⟨rest, rfl⟩, us ++ [w], ?_, ?_⟩, h.image, h.landed, h.returned, h.nodup, h.known,
        h.parked, h.made, ?_⟩, le_rfl⟩
      · rw [hws, List.append_assoc]
        rfl
      · rw [hstored, List.foldl_append]
        rfl
      · intro r hr
        have := h.seen r hr
        rwa [hthread] at this

theorem WriteInv.step (h : WriteInv fileHdr key p₀ s done todo pd) {a : Action}
    (ok : Allowed key s a) (quiet : Undisturbed s a) :
    s.step fileHdr key a ≠ .abort ∧
      ∀ s', s.step fileHdr key a = .next s' → ∃ done' todo' pd',
        WriteInv fileHdr key p₀ s' done' todo' pd' ∧ pd.hdr.llsn ≤ pd'.hdr.llsn := by
  cases a with
  | modify log =>
    obtain ⟨hcall, hkey⟩ := ok
    simp only [WriteBack.step]
    cases hws : redoOnPage fileHdr log s.latest with
    | next ws =>
      refine ⟨by simp, fun s' hs' => ?_⟩
      obtain rfl := next.inj hs'
      exact ⟨_, _, _, h.modify (Option.isNone_iff_eq_none.1 hcall) hkey hws, le_rfl⟩
    | _ => simp
  | writePage =>
    refine ⟨by simp [WriteBack.step], fun s' hs' => ?_⟩
    obtain rfl := next.inj hs'
    exact ⟨_, _, _, h.writePage, le_rfl⟩
  | land =>
    simp only [WriteBack.step]
    cases hcall : s.call with
    | none => simp
    | some c =>
      refine ⟨by simp, fun s' hs' => ?_⟩
      obtain rfl := next.inj hs'
      exact ⟨_, _, _, h.land hcall quiet, h.le_latest⟩
  | reply =>
    have hlanded : s.call.map (·.landed) = some true := ok
    simp only [WriteBack.step]
    cases hcall : s.call with
    | none => simp
    | some c =>
      refine ⟨by simp, fun s' hs' => ?_⟩
      obtain rfl := next.inj hs'
      rw [hcall] at hlanded
      exact ⟨_, _, _, h.reply hcall (Option.some.inj hlanded), le_rfl⟩
  | dispatch log =>
    obtain ⟨hidle, hmade, hnew⟩ := ok
    obtain ⟨s₁, hs₁, hinv⟩ := h.dispatch hidle hmade hnew
    simp only [WriteBack.step, hs₁]
    refine ⟨by simp, fun s' hs' => ?_⟩
    obtain rfl := next.inj hs'
    exact ⟨_, _, _, hinv, le_rfl⟩
  | replay => exact h.replay

end Steps

section Runs

variable {fileHdr : RmFileHdr} {key : PageKey} {p₀ : Page} {s : WriteBack}

theorem writeInv_of_run (run : Run (WriteBack.step fileHdr key)
      (fun s a => Allowed key s a ∧ Undisturbed s a) (init p₀) s) :
    ∃ done todo pd, WriteInv fileHdr key p₀ s done todo pd := by
  refine run.invariant (P := fun s => ∃ done todo pd, WriteInv fileHdr key p₀ s done todo pd)
    ⟨_, _, _, WriteInv.init p₀⟩ ?_
  rintro s a s' ⟨done, todo, pd, h⟩ ⟨ok, quiet⟩ taken
  obtain ⟨done', todo', pd', h', -⟩ := (h.step ok quiet).2 s' taken
  exact ⟨done', todo', pd', h'⟩

/-- In every run in which no `WritePage` lands while the replay thread is between the header read of
`Dispatch` and the last write of redo: no check fails, the stored version never decreases, it is
never older than a version whose `WritePage` has returned, and when no call is in flight and all
records are consumed the stored page is the newest one. -/
theorem stored_version_monotone (run : Run (WriteBack.step fileHdr key)
      (fun s a => Allowed key s a ∧ Undisturbed s a) (init p₀) s) :
    (∀ a, Allowed key s a → Undisturbed s a → s.step fileHdr key a ≠ .abort ∧
      ∀ s', s.step fileHdr key a = .next s' → s.stored.hdr.llsn ≤ s'.stored.hdr.llsn) ∧
    s.returned ≤ s.stored.hdr.llsn ∧
    (s.call = none → s.thread.current = none → (∀ log ∈ s.made, log ∈ s.consumed) →
      s.stored = s.latest) := by
  obtain ⟨done, todo, pd, h⟩ := writeInv_of_run run
  refine ⟨fun a ok quiet => ?_, ?_, fun _ hidle hall => ?_⟩
  · obtain ⟨hok, hnext⟩ := h.step ok quiet
    refine ⟨hok, fun s' hs' => ?_⟩
    obtain ⟨done', todo', pd', h', hle⟩ := hnext s' hs'
    rw [h.thread.version, h'.thread.version]
    exact hle
  · rw [h.thread.version]
    exact h.returned
  · obtain ⟨-, hstored⟩ := h.stored_of_idle hidle
    cases todo with
    | nil => rw [hstored, next.inj h.redo_todo]
    | cons head tail =>
      -- the next record was given to the thread, which would have applied it
      exfalso
      have hmade : head ∈ s.made := by simp [h.split]
      have hnodup := h.linked.1.nodup
      rw [h.split, List.nodup_append] at hnodup
      obtain ⟨-, htodo, hdisjoint⟩ := hnodup
      have hnotDone : head ∉ done := fun hin =>
        absurd rfl (hdisjoint head hin head List.mem_cons_self)
      rcases h.seen head (hall head hmade) with hin | hin | hin
      · exact hnotDone hin
      · rcases h.parked head hin with hin | hin
        · exact hnotDone hin
        · exact (List.nodup_cons.1 htodo).1 hin
      · rw [hidle] at hin
        cases hin

end Runs

section TwoUpdates

/-! Two updates of one tuple, each followed by the X holder's `WritePage`. -/

theorem update_fits : LOG_HEADER_SIZE + (LogBody.update "t" { pageNo := 1, slotNo := 0 }
    { key := 3, item := .init, value := [5] }).size ≤ LOG_REPLAY_BUFFER_SIZE := by
  decide

/-- The first update of the row. -/
def firstUpdate : LogRecord where
  lsn := 1
  prevLsn := 0
  logNodeId := 0
  body := .update "t" { pageNo := 1, slotNo := 0 } { key := 3, item := .init, value := [5] }
  fits := update_fits

/-- The second one. -/
def secondUpdate : LogRecord where
  lsn := 2
  prevLsn := 1
  logNodeId := 1
  body := .update "t" { pageNo := 1, slotNo := 0 } { key := 3, item := .init, value := [6] }
  fits := by decide

/-- The page before them. -/
def updatedPage : Page where
  hdr := { nextFreePageNo := 0, numRecords := 1, llsn := 0, preLLSN := 0 }
  bitmap := fun i => i == 0
  slots := fun _ => { key := 3, item := .init, value := [4] }

/-- The header of its file. -/
def updatedFile : RmFileHdr where
  recordSize := 73
  numPages := 2
  numRecordsPerPage := 1
  bitmapSize := 1

/-- The first record is redone before its page is sent, the second one afterwards. -/
def takingTurns : List Action :=
  [.modify firstUpdate, .dispatch firstUpdate, .replay, .replay, .replay, .writePage, .land, .reply,
    .modify secondUpdate, .writePage, .land, .reply, .dispatch secondUpdate]

theorem stored_version_monotone_takingTurns :
    ∃ s, Run (WriteBack.step updatedFile ("t", 1))
        (fun s a => Allowed ("t", 1) s a ∧ Undisturbed s a) (init updatedPage) s ∧
      s.stored = s.latest ∧ s.returned = 2 ∧ s.returned ≤ s.stored.hdr.llsn := by
  obtain ⟨s, run, hs⟩ := Run.of_reaches (WriteBack.step updatedFile ("t", 1))
    (fun s a => Allowed ("t", 1) s a ∧ Undisturbed s a) takingTurns (init updatedPage)
    (fun s => decide (s.call.isNone ∧ s.thread.current = none ∧ s.returned = 2 ∧
      ∀ log ∈ s.made, log ∈ s.consumed)) (by decide +kernel)
  obtain ⟨hcall, hidle, hreturned, hall⟩ := of_decide_eq_true hs
  obtain ⟨-, hle, hfinal⟩ := stored_version_monotone run
  exact ⟨s, run, hfinal (Option.isNone_iff_eq_none.1 hcall) hidle hall, hreturned, hle⟩

/-- Redo of the first record has written the tuple; before it writes the header both versions are
sent and land. -/
def landsDuringRedo : List Action :=
  [.modify firstUpdate, .dispatch firstUpdate, .replay, .replay, .writePage, .land, .reply,
    .modify secondUpdate, .writePage, .land, .reply]

/-- `Dispatch` has decided to redo the first record; its page lands before redo reads the header. -/
def landsBeforeRedo : List Action :=
  [.modify firstUpdate, .writePage, .dispatch firstUpdate, .land]

/-- Without that condition the stored version goes back, behind a version whose `WritePage` has
returned, and the version check of `apply_single_log` can fail. -/
theorem stored_version_goes_back :
    (∃ s s', Run (WriteBack.step updatedFile ("t", 1)) (Allowed ("t", 1)) (init updatedPage) s ∧
      Allowed ("t", 1) s .replay ∧ s.step updatedFile ("t", 1) .replay = .next s' ∧
      s'.stored.hdr.llsn < s.stored.hdr.llsn ∧ s'.stored.hdr.llsn < s'.returned) ∧
    ∃ s, Run (WriteBack.step updatedFile ("t", 1)) (Allowed ("t", 1)) (init updatedPage) s ∧
      Allowed ("t", 1) s .replay ∧ s.step updatedFile ("t", 1) .replay = .abort := by
  constructor
  · obtain ⟨s, run, hs⟩ := Run.of_reaches (WriteBack.step updatedFile ("t", 1))
      (Allowed ("t", 1)) landsDuringRedo (init updatedPage)
      (fun s => (s.step updatedFile ("t", 1) .replay).completes fun s' =>
        s'.stored.hdr.llsn < s.stored.hdr.llsn ∧ s'.stored.hdr.llsn < s'.returned)
      (by decide +kernel)
    obtain ⟨s', hstep, htest⟩ := Outcome.of_completes hs
    obtain ⟨hback, hreturned⟩ := of_decide_eq_true htest
    exact ⟨s, s', run, trivial, hstep, hback, hreturned⟩
  · obtain ⟨s, run, hs⟩ := Run.of_reaches (WriteBack.step updatedFile ("t", 1))
      (Allowed ("t", 1)) landsBeforeRedo (init updatedPage)
      (fun s => (s.step updatedFile ("t", 1) .replay).aborts) (by decide +kernel)
    exact ⟨s, run, trivial, Outcome.of_aborts hs⟩

end TwoUpdates

end WriteBack

end Storage
