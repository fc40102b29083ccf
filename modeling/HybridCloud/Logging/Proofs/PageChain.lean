import HybridCloud.LazyRelease.Proofs.BufferPresence
import HybridCloud.Lib.RedoChain
import HybridCloud.Logging.Cluster
import HybridCloud.Logging.Proofs.Watermark

/-!
# The records of a page form one chain

What happens to one page is a run of its protocol, so that a writer has the page as the last writer
left it. Hence the records of a page are linked one to the next whichever nodes made them. After an
eviction has lost its victim, a node may write an old copy, and the chain forks.
-/

namespace Logging.Cluster

open LazyRelease Outcome Storage Function
open GPLM (NodeId)

variable {N : Nat} {α : Type} {c c' : Cluster N α} {stored : PageKey → Page α} {n : NodeId N}
  {key : PageKey}

/-- No eviction loses its victim. -/
def Action.KeepsVictim : Action N α → Prop
  | .transfer _ a => a.KeepsVictim
  | _ => True

instance (a : Action N α) : Decidable a.KeepsVictim := by
  unfold Action.KeepsVictim
  split <;> infer_instance

/-- The records of a page that any node has given an LSN. -/
def Issued (c : Cluster N α) (key : PageKey) (r : LogRecord) : Prop :=
  ∃ n, r ∈ (c.logs n).issued ∧ r.pageForLog = some key

variable [DecidableEq α]

/-- The page has gone through a run of its protocol, and its records are linked. -/
structure ChainInv (stored : PageKey → Page α) (c : Cluster N α) : Prop where
  run : ∀ key, Run State.step (fun _ a => a.KeepsVictim ∧ a.Logged) (.init (stored key)) (c.pages key)
  /-- The nodes have issued the listed records and no others. -/
  complete : ∀ key r, r ∈ c.logged key ↔ c.Issued key r
  linked : ∀ key, Linked LogRecord.lsn LogRecord.prevLsn (stored key).llsn (c.logged key)
  /-- The last writer left the page at the version of its last record. -/
  version : ∀ key,
    (c.pages key).cur.llsn = versionAfter LogRecord.lsn (stored key).llsn (c.logged key)

namespace ChainInv

section

variable (h : ChainInv stored c)
include h

theorem buffer_of_used (hN : N < GPLM.EXCLUSIVE_LOCKED)
    (hused : 0 < ((c.pages key).nodes n).readers ∨ 0 < ((c.pages key).nodes n).writers) :
    ((c.pages key).nodes n).buffer = some (c.pages key).cur :=
  have hpage := pageInv_of_run hN (h.run key)
  hpage.coherent.buffer_of_used hpage.toTransferInv hused

/-- A step that does not change the page adds no record. -/
theorem transfer {a : LazyRelease.Action N α} (ha : a.KeepsVictim)
    (taken : c.transfer key a = .next c') : ChainInv stored c' := by
  simp only [Cluster.transfer, bind_eq_next, await_eq_next, pure_def, next.injEq] at taken
  obtain ⟨-, hsame, st, hst, rfl⟩ := taken
  have hcur := ((step_cases hst).rest hsame).1
  refine ⟨?_, h.complete, h.linked, ?_⟩
  · refine (forall_update_iff c.pages _).2 ⟨(h.run key).step ⟨ha, ?_⟩ hst, fun key' _ => h.run key'⟩
    cases a <;> simp_all [Action.Logged, Action.changesPage]
  · refine (forall_update_iff c.pages fun key st => st.cur.llsn = _).2
      ⟨?_, fun key' _ => h.version key'⟩
    rw [hcur]
    exact h.version key

theorem log {a : LogBuffer.Action} (taken : c.log n a = .next c') : ChainInv stored c' := by
  simp only [Cluster.log, bind_eq_next, await_eq_next, pure_def, next.injEq] at taken
  obtain ⟨-, hpage, b, hb, rfl⟩ := taken
  refine ⟨h.run, fun key r => ?_, h.linked, h.version⟩
  rw [h.complete]
  refine exists_congr fun m => and_congr_left fun hr => ?_
  show r ∈ (c.logs m).issued ↔ r ∈ (update c.logs n b m).issued
  by_cases hm : m = n
  · subst hm
    rw [update_self, (LogBuffer.step_grows hb).2, List.mem_append]
    -- an LSN allocated here is not one of a page record
    refine (or_iff_left fun hnew => ?_).symm
    cases a with
    | updatePageLLSN log llsn | addMetadataLog log =>
      obtain rfl := List.mem_singleton.1 hnew
      cases hr.symm.trans hpage
    | addToLogNoBlock | flushTake | flushWrite | flushPublish | flushEnd => cases hnew
  · rw [update_of_ne hm]

/-- A write adds one record, made on the newest page. -/
theorem write (hN : N < GPLM.EXCLUSIVE_LOCKED) {f : α → α} {log : LogRecord}
    (taken : c.write n f log = .next c') : ChainInv stored c' := by
  unfold Cluster.write at taken
  split at taken
  · cases taken
  rename_i key hkey
  split at taken
  · cases taken
  rename_i page hbuf
  simp only [LogBuffer.updatePageLLSN, bind_eq_next, await_eq_next, pure_def, next.injEq] at taken
  obtain ⟨b, ⟨-, hfree, rfl⟩, st, hst, rfl⟩ := taken
  generalize nextPageLLSN (c.logs n).currentLLSN page.llsn = lsn at hst ⊢
  have hok : (LazyRelease.Action.write n f lsn).KeepsVictim ∧
      (LazyRelease.Action.write n f lsn).Logged := ⟨by rintro _ ⟨⟩, trivial⟩
  have hrun := (h.run key).step hok hst
  -- the writer has the newest page
  cases step_cases (a := .write n f lsn) hst with
  | @write _ _ _ page' writer buf lt =>
  obtain rfl : page' = page := Option.some.inj (buf.symm.trans hbuf)
  have hcur : page' = (c.pages key).cur :=
    Option.some.inj (buf.symm.trans (h.buffer_of_used hN (.inr writer)))
  have hversion : page'.llsn = versionAfter LogRecord.lsn (stored key).llsn (c.logged key) := by
    rw [hcur, h.version]
  refine ⟨?_, fun key' r => ?_, ?_, fun key' => ?_⟩
  · exact (forall_update_iff c.pages _).2 ⟨hrun, fun key' _ => h.run key'⟩
  · -- the new record is the only one that is issued, and it is one of this page
    have hissued : ∀ m, r ∈ (update c.logs n { c.logs n with
        currentLLSN := lsn, logMtx := some { log with lsn := lsn, prevLsn := page'.llsn } } m).issued ↔
          r ∈ (c.logs m).issued ∨ m = n ∧ r = { log with lsn := lsn, prevLsn := page'.llsn } := by
      intro m
      by_cases hm : m = n
      · subst hm
        simp [LogBuffer.issued, hfree]
      · simp [hm]
    show r ∈ update c.logged key _ key' ↔ ∃ m, r ∈ _ ∧ r.pageForLog = some key'
    simp only [hissued, or_and_right, exists_or]
    by_cases hkey' : key' = key
    · subst hkey'
      rw [update_self, List.mem_append, List.mem_singleton, h.complete]
      refine or_congr Iff.rfl ⟨fun hr => ⟨n, ⟨rfl, hr⟩, hr ▸ hkey⟩, ?_⟩
      rintro ⟨m, ⟨-, hr⟩, -⟩
      exact hr
    · rw [update_of_ne hkey', h.complete]
      refine (or_iff_left ?_).symm
      rintro ⟨m, ⟨-, rfl⟩, hr⟩
      exact hkey' (Option.some.inj (hr.symm.trans hkey))
  · refine (forall_update_iff c.logged fun key => Linked _ _ (stored key).llsn).2
      ⟨linked_append.2 ?_, fun key' _ => h.linked key'⟩
    exact ⟨h.linked key, hversion, hversion ▸ lt, linked_nil⟩
  · show (update c.pages key _ key').cur.llsn = versionAfter _ _ (update c.logged key _ key')
    by_cases hkey' : key' = key
    · subst hkey'
      rw [update_self, update_self, versionAfter_concat]
    · rw [update_of_ne hkey', update_of_ne hkey']
      exact h.version key'

end

theorem step (hN : N < GPLM.EXCLUSIVE_LOCKED) (h : ChainInv stored c) {a : Action N α}
    (ha : a.KeepsVictim) (taken : c.step a = .next c') : ChainInv stored c' := by
  cases a with
  | transfer key a => exact h.transfer ha taken
  | write n f log => exact h.write hN taken
  | log n a => exact h.log taken

end ChainInv

section Example

end Example

end Logging.Cluster
