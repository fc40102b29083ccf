import HybridCloud.Lib.RedoChain
import HybridCloud.Storage.LogReplay

/-!
# Redo of one record

UPDATE and LOCK are redone by two writes, the tuple and then the header: between them the page has
the new tuple under the old LLSN. The first write, made again on its own result, changes nothing, so
that `heapRedo` is a redo model in the sense of `RedoModel`.
-/

namespace Storage

open Outcome

variable {fileHdr : RmFileHdr} {log : LogRecord} {page : Page} {ws : List PageWrite}

theorem LogRecord.followsOn_iff {hdr : RmPageHdr} :
    log.followsOn hdr ↔ hdr.llsn < log.lsn ∧ log.prevLsn = hdr.llsn := by
  unfold LogRecord.followsOn
  rw [not_or, Nat.not_le, Decidable.not_not]

theorem DataItem.withLock_withLock (item : DataItem) (lockType : UInt64) (timeStamp : Nat)
    (holderNode lockOwnerNode : UInt8) :
    (item.withLock lockType timeStamp holderNode lockOwnerNode).withLock lockType timeStamp
      holderNode lockOwnerNode = item.withLock lockType timeStamp holderNode lockOwnerNode := rfl

theorem Tuple.overwrite_overwrite (t : Tuple) (r : RmRecord) :
    (t.overwrite r).overwrite r = t.overwrite r := by
  simp [Tuple.overwrite]

/-- The writes of one redo: the whole page at once, or a part of it and then the header. -/
inductive RedoShape (fileHdr : RmFileHdr) (log : LogRecord) (page : Page) :
    List PageWrite → Prop where
  | whole (image : Page) (himage : image.hdr.llsn = log.lsn) :
      RedoShape fileHdr log page [.writePage image]
  | twoWrites (w : PageWrite) (hhdr : (page.perform w).hdr = page.hdr)
      (hidem : (page.perform w).perform w = page.perform w)
      (hredo : log.body.redoWrites fileHdr log (page.perform w) =
        .next [w, .updateHdr (page.hdr.advance log.lsn)]) :
      RedoShape fileHdr log page [w, .updateHdr (page.hdr.advance log.lsn)]

/-- Redo of a record that changes a heap page: the version check holds, and the writes have one of
the two shapes. -/
theorem redoWrites_shape {key : PageKey} (hkey : log.pageForLog = some key)
    (h : log.body.redoWrites fileHdr log page = .next ws) :
    log.followsOn page.hdr ∧ RedoShape fileHdr log page ws := by
  unfold LogRecord.pageForLog at hkey
  cases hbody : log.body with
  | insert table rid value =>
    simp only [hbody, LogBody.redoWrites, bind_eq_next, cassert_eq_next, pure_def,
      next.injEq] at h
    obtain ⟨-, -, -, hfollows, -, -, rfl⟩ := h
    exact ⟨hfollows, .whole _ rfl⟩
  | delete table rid =>
    simp only [hbody, LogBody.redoWrites, bind_eq_next, cassert_eq_next, pure_def,
      next.injEq] at h
    obtain ⟨-, -, -, hfollows, -, -, -, -, -, -, rfl⟩ := h
    exact ⟨hfollows, .whole _ rfl⟩
  | update | lock =>
    simp only [hbody, LogBody.redoWrites, bind_eq_next, cassert_eq_next, pure_def,
      next.injEq] at h
    obtain ⟨-, hslot, -, hfollows, rfl⟩ := h
    refine ⟨hfollows, .twoWrites _ rfl ?_ ?_⟩
    · simp [Page.perform, Tuple.overwrite_overwrite]
    · simp only [hbody, LogBody.redoWrites, Page.perform, cassert_bind hslot,
        Function.update_self, DataItem.withLock_withLock]
      exact cassert_bind hfollows _
  | _ => simp [hbody] at hkey

/-- Redo on the pages of a table file; records that change no heap page are not redone on one. -/
def redoOnPage (fileHdr : RmFileHdr) (log : LogRecord) (page : Page) : Outcome (List PageWrite) :=
  match log.pageForLog with
  | some _ => log.body.redoWrites fileHdr log page
  | none => .abort

theorem redoOnPage_of_key {key : PageKey} (hkey : log.pageForLog = some key) :
    redoOnPage fileHdr log page = log.body.redoWrites fileHdr log page := by
  simp [redoOnPage, hkey]

theorem redoOnPage_shape (h : redoOnPage fileHdr log page = .next ws) :
    log.followsOn page.hdr ∧ RedoShape fileHdr log page ws := by
  unfold redoOnPage at h
  split at h
  · rename_i key hkey
    exact redoWrites_shape hkey h
  · cases h

theorem redoOnPage_version (h : redoOnPage fileHdr log page = .next ws) :
    page.hdr.llsn = log.prevLsn ∧ log.prevLsn < log.lsn ∧
      (ws.foldl Page.perform page).hdr.llsn = log.lsn := by
  obtain ⟨hfollows, hshape⟩ := redoOnPage_shape h
  obtain ⟨hlt, hprev⟩ := LogRecord.followsOn_iff.1 hfollows
  refine ⟨hprev.symm, hprev ▸ hlt, ?_⟩
  cases hshape with
  | whole image himage => exact himage
  | twoWrites w => rfl

theorem redoOnPage_again {us : List PageWrite} (h : redoOnPage fileHdr log page = .next ws)
    (hus : us <+: ws) (hne : us ≠ ws) :
    (us.foldl Page.perform page).hdr.llsn = page.hdr.llsn ∧
    ∃ ws', redoOnPage fileHdr log (us.foldl Page.perform page) = .next ws' ∧
      ws'.foldl Page.perform (us.foldl Page.perform page) = ws.foldl Page.perform page ∧
      ∀ us', us' <+: ws' → us' ≠ ws' → ∃ us'', us'' <+: ws ∧ us'' ≠ ws ∧
        us'.foldl Page.perform (us.foldl Page.perform page) = us''.foldl Page.perform page := by
  by_cases hnil : us = []
  · -- nothing has been written yet
    subst hnil
    exact ⟨rfl, ws, h, rfl, fun us' hus' hne' => ⟨us', hus', hne', rfl⟩⟩
  · obtain ⟨-, hshape⟩ := redoOnPage_shape h
    cases hshape with
    | whole image himage =>
      rcases List.prefix_cons_iff.1 hus with rfl | ⟨t, rfl, ht⟩
      · exact absurd rfl hnil
      · exact absurd (by rw [List.prefix_nil.1 ht]) hne
    | twoWrites w hhdr hidem hredo =>
      -- the tuple has been written and the header has not
      obtain rfl : us = [w] := by
        rcases List.prefix_cons_iff.1 hus with rfl | ⟨t, rfl, ht⟩
        · exact absurd rfl hnil
        · rcases List.prefix_cons_iff.1 ht with rfl | ⟨t', rfl, ht'⟩
          · rfl
          · exact absurd (by rw [List.prefix_nil.1 ht']) hne
      have hagain : redoOnPage fileHdr log (page.perform w) =
          .next [w, .updateHdr (page.hdr.advance log.lsn)] := by
        unfold redoOnPage at h ⊢
        split at h
        · exact hredo
        · cases h
      refine ⟨congrArg RmPageHdr.llsn hhdr, _, hagain, ?_, ?_⟩
      · simp only [List.foldl_cons, List.foldl_nil, hidem]
      · intro us' hus' hne'
        refine ⟨[w], ⟨_, rfl⟩, by simp, ?_⟩
        rcases List.prefix_cons_iff.1 hus' with rfl | ⟨t, rfl, ht⟩
        · rfl
        · rcases List.prefix_cons_iff.1 ht with rfl | ⟨t', rfl, ht'⟩
          · exact hidem
          · exact absurd (by rw [List.prefix_nil.1 ht']) hne'

/-- Redo of log records on the heap pages of one table. -/
def heapRedo (fileHdr : RmFileHdr) : RedoModel Page PageWrite LogRecord where
  perform := Page.perform
  redo := redoOnPage fileHdr
  version page := page.hdr.llsn
  lsn := LogRecord.lsn
  prev := LogRecord.prevLsn
  redo_version := redoOnPage_version
  redo_again := redoOnPage_again

end Storage
