import HybridCloud.Storage.RowEnd
import HybridCloud.Storage.Proofs.ReplayRuns
import HybridCloud.Storage.Proofs.ReplayWith

/-!
# Replay and the end of a page

As long as the rows of the records end in their pages, redo writes into the slots only and replay is
confluent. One row in a last slot that is cut by the end of its page is enough to spoil the page
behind it.
-/

namespace Storage

open Outcome LogReplay HeapLayout

section EndsInPage

variable {fileHdr : RmFileHdr} {body : LogBody}

/-- A row that is no longer than the slots of its table ends in its page, if the slots do. -/
theorem row_ends_in_page {slotNo len : Nat} (h : fileHdr.SlotsInside)
    (hslot : slotNo < fileHdr.numRecordsPerPage)
    (hlen : sizeofDataItem + len ≤ fileHdr.recordSize) :
    fileHdr.tuple slotNo + sizeofItemkey + sizeofDataItem + len ≤ PAGE_SIZE := by
  have hinside := h.inside slotNo hslot
  unfold RmFileHdr.slotSize at hinside
  omega

theorem RmRecord.inPage_eq_self {slotNo : Nat} {r : RmRecord}
    (h : fileHdr.tuple slotNo + sizeofItemkey + sizeofDataItem + r.value.length ≤ PAGE_SIZE) :
    r.inPage fileHdr slotNo = r := by
  unfold inPage valueRoom
  rw [List.take_of_length_le (by omega)]

theorem LogBody.inPage_eq_self (h : body.EndsInPage fileHdr) : body.inPage fileHdr = body := by
  cases body with
  | insert table rid value => exact congrArg (insert table rid) (RmRecord.inPage_eq_self h)
  | update table rid value => exact congrArg (update table rid) (RmRecord.inPage_eq_self h)
  | _ => rfl

theorem LogRecord.inPage_eq_self {log : LogRecord} (h : log.body.EndsInPage fileHdr) :
    log.inPage fileHdr = log := by
  unfold inPage
  simp only [LogBody.inPage_eq_self h]

theorem LogBody.overrun_eq_nil (h : body.EndsInPage fileHdr) : body.overrun fileHdr = [] := by
  cases body with
  | update table rid value =>
    simp only [EndsInPage] at h
    exact List.drop_of_length_le (by unfold valueRoom; omega)
  | _ => rfl

/-- The record's row ends in its page, by the file header that its table has on the disk. -/
def LogRecord.EndsInPage (d : Disk) (log : LogRecord) : Prop :=
  ∀ key, log.pageForLog = some key → ∀ fileHdr, d.readFileHdr key.1 = .next fileHdr →
    log.body.EndsInPage fileHdr

/-- Rows that end in their pages are redone alike. -/
theorem applyRow_alike (d₀ : Disk) :
    AppliesAlike (fun d => ∀ table, d.readFileHdr table = d₀.readFileHdr table)
      (LogRecord.EndsInPage d₀) applyRow where
  same {s key log} hdisk hlog hkey := by
    unfold applyRow applySingleLog
    cases hhdr : s.disk.readFileHdr key.1 with
    | next fileHdr =>
      have hends := hlog key hkey fileHdr (hdisk key.1 ▸ hhdr)
      simp only [next_bind, LogBody.inPage_eq_self hends, LogBody.overrun_eq_nil hends,
        Disk.writeBehind]
    | _ => rfl
  keeps hdisk table := Disk.readFileHdr_performAll.trans (hdisk table)

end EndsInPage

section Runs

variable {d₀ : Disk} {chains : PageKey → List LogRecord} {files : List WalFile} {s : LogReplay}

theorem RunInv.of_run_applyRow (hw : WalOf chains files) (hc : ChainsApply d₀ chains)
    (hends : ∀ key, ∀ log ∈ chains key, log.EndsInPage d₀)
    (run : Run (stepWith applyRow) Allowed (registerAll d₀ files fun _ => 0) s) :
    RunInv d₀ d₀ chains files s ∧ ∀ a, s.stepWith applyRow a = s.step a := by
  have hfiles : ∀ f ∈ files, ∀ log ∈ f.records, log.EndsInPage d₀ := by
    intro f hf log hlog key hkey
    exact hends key log ((hw.chain key log).2 ⟨hkey, f, hf, hlog⟩) key hkey
  obtain ⟨hs, run⟩ := run_alike (applyRow_alike d₀) (fun _ => rfl) hfiles run
  exact ⟨RunInv.of_run hc (hw.walWith d₀) (.refl d₀ chains) (fun f _ => ⟨0, Nat.zero_le _, rfl⟩) run,
    fun a => (stepWith_alike (applyRow_alike d₀) hs).1⟩

/-- Replay of rows that end in their pages is confluent: in every run that reads the streams of the
nodes in any order and in any pieces, no step fails, and once all streams are read to the end nothing
is parked and every page is the result of redoing its chain in order. -/
theorem replay_confluent (hw : WalOf chains files) (hc : ChainsApply d₀ chains)
    (hends : ∀ key, ∀ log ∈ chains key, log.EndsInPage d₀)
    (run : Run (stepWith applyRow) Allowed (registerAll d₀ files fun _ => 0) s) :
    (∀ a, Allowed s a → ∃ s', s.stepWith applyRow a = .next s') ∧
      ((∀ n, (s.streams n).rest = []) →
        s.pendingRecords = 0 ∧ s.waiting = [] ∧ ∀ key, PageReplayed d₀ chains s.disk key) := by
  obtain ⟨h, hstep⟩ := RunInv.of_run_applyRow hw hc hends run
  constructor
  · intro a ok
    obtain ⟨s', hs', -⟩ := h.step hc (hw.walWith d₀) ok
    exact ⟨s', (hstep a).trans hs'⟩
  · exact h.finished hc (hw.walWith d₀)

theorem twoStreams_endsInPage : ∀ key, ∀ log ∈ twoStreamsChain key,
    log.EndsInPage twoStreamsDisk := by
  intro key log hlog key' hkey' fileHdr hhdr
  by_cases hkey : key = ("t", 1)
  · subst hkey
    rcases (show log = lockedByNode0 ∨ log = updatedByNode1 by
      simpa [twoStreamsChain] using hlog) with rfl | rfl
    · trivial
    · obtain rfl := Option.some.inj hkey'
      obtain rfl := next.inj hhdr
      show (_ : Nat) ≤ _
      decide
  · simp [twoStreamsChain, hkey] at hlog

theorem replay_confluent_twoStreams :
    ∃ s, Run (stepWith applyRow) Allowed (registerAll twoStreamsDisk twoStreams fun _ => 0) s ∧
      s.waiting = [] ∧ PageReplayed twoStreamsDisk twoStreamsChain s.disk ("t", 1) := by
  obtain ⟨s, run, hs⟩ := Run.of_reaches (stepWith applyRow) Allowed laterStreamFirst
    (registerAll twoStreamsDisk twoStreams fun _ => 0)
    (fun s => decide ((s.streams 0).rest = [] ∧ (s.streams 1).rest = [])) (by decide +kernel)
  obtain ⟨hrest₀, hrest₁⟩ := of_decide_eq_true hs
  obtain ⟨h, -⟩ := RunInv.of_run_applyRow twoStreams_wal twoStreams_apply twoStreams_endsInPage run
  have hread : ∀ n, (s.streams n).rest = [] := by
    intro n
    by_cases hn : n ∈ twoStreams.map (·.node)
    · rcases List.mem_cons.1 (show n ∈ [0, 1] from hn) with rfl | hn
      · exact hrest₀
      · rw [List.mem_singleton.1 hn]
        exact hrest₁
    · exact (h.noFile n hn).2
  obtain ⟨-, hwaiting, hpages⟩ :=
    (replay_confluent twoStreams_wal twoStreams_apply twoStreams_endsInPage run).2 hread
  exact ⟨s, run, hwaiting, hpages _⟩

end Runs

section LastSlot

/-! A table with a key and a string of 30 bytes, and two pages. The row in the last slot of page 1 is
updated. -/

/-- An update of slot 36, the last one. -/
def lastSlotUpdate : LogRecord where
  lsn := 1
  prevLsn := 0
  logNodeId := 0
  body := .update "t" { pageNo := 1, slotNo := 36 }
    { key := 3, item := .init, value := List.replicate 30 7 }
  fits := by decide

/-- It is logged by node 0. -/
def lastSlotFiles : List WalFile := [{ node := 0, records := [lastSlotUpdate] }]

/-- The chain of the page. -/
def lastSlotChain (key : PageKey) : List LogRecord :=
  if key = ("t", 1) then [lastSlotUpdate] else []

/-- A page with 37 rows. -/
def fullPage : Page where
  hdr := { nextFreePageNo := -1, numRecords := 37, llsn := 0, preLLSN := 0 }
  bitmap := fun i => i < 37
  slots := fun _ => { key := 3, item := .init, value := List.replicate 30 4 }

/-- Two such pages. -/
def lastSlotDisk : Disk := fun table =>
  if table = "t" then
    (createTable [⟨"id", .itemkey, 8⟩, ⟨"name", .string, 30⟩]).map fun hdr =>
      { fileHdr := { hdr with numPages := 3 }
        pages := fun n => if n = 1 ∨ n = 2 then some fullPage else none }
  else none

theorem lastSlot_wal : WalOf lastSlotChain lastSlotFiles := by
  refine ⟨by decide, by decide +kernel, by decide +kernel, ?_, ?_⟩
  · simp [lastSlotFiles, lastSlotUpdate]
  · intro key log
    have hfiles : (∃ f ∈ lastSlotFiles, log ∈ f.records) ↔ log = lastSlotUpdate := by
      simp [lastSlotFiles]
    rw [hfiles]
    by_cases hkey : key = ("t", 1)
    · subst hkey
      simp only [lastSlotChain, if_true, List.mem_singleton]
      constructor
      · rintro rfl
        exact ⟨rfl, rfl⟩
      · exact fun h => h.2
    · simp only [lastSlotChain, if_neg hkey, List.not_mem_nil, false_iff, not_and]
      rintro hkey' rfl
      exact hkey (Option.some.inj hkey').symm

theorem lastSlot_apply : ChainsApply lastSlotDisk lastSlotChain := by
  constructor
  · intro key log hlog
    exact ((lastSlot_wal.chain key log).1 hlog).1
  · intro key hne
    have hkey : key = ("t", 1) := by
      by_contra hkey
      simp [lastSlotChain, hkey] at hne
    subst hkey
    exact ⟨_, _, _, rfl, rfl, rfl⟩

/-- The redo of a row in the last slot of page 1 overwrites the first three bytes of page 2, which
has no records at all. -/
theorem replay_overruns_page : WalOf lastSlotChain lastSlotFiles ∧
    ChainsApply lastSlotDisk lastSlotChain ∧
    ∃ s, Run (stepWith applyRow) Allowed (registerAll lastSlotDisk lastSlotFiles fun _ => 0) s ∧
      (∀ f ∈ lastSlotFiles, (s.streams f.node).rest = []) ∧ lastSlotChain ("t", 2) = [] ∧
      ¬ PageReplayed lastSlotDisk lastSlotChain s.disk ("t", 2) := by
  obtain ⟨s, run, hs⟩ := Run.of_reaches (stepWith applyRow) Allowed
    [.publishDurable 0 (walBytes [lastSlotUpdate]), .readStream 0]
    (registerAll lastSlotDisk lastSlotFiles fun _ => 0)
    (fun s => decide ((s.streams 0).rest = [] ∧
      (s.disk.page ("t", 2)).map (·.hdr.nextFreePageNo) = some (-0xf8f8f9))) (by decide +kernel)
  obtain ⟨hrest, hnext⟩ := of_decide_eq_true hs
  refine ⟨lastSlot_wal, lastSlot_apply, s, run, ?_, rfl, ?_⟩
  · intro f hf
    rw [List.mem_singleton.1 hf]
    exact hrest
  · rintro ⟨-, hpage⟩
    obtain ⟨p, hredo, hp⟩ := hpage _ fullPage rfl rfl
    obtain rfl := next.inj hredo
    rw [hp, Option.map_some, Option.some.injEq] at hnext
    exact absurd hnext (by decide)

end LastSlot

end Storage
