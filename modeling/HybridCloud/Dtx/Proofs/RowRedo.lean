import HybridCloud.Dtx.HeapPage
import HybridCloud.Storage.Proofs.RedoProofs

/-!
# Redo of one logged change

`Synced` says that redo of all records, started on the page as it was before them, completes and
gives the page of the compute node; only the value pointers may differ. For each kind of record
there is a rule that says which change of the page it stands for.
-/

namespace Dtx

open Outcome Storage Logging Function

section Same

variable {p q p' q' : Page} {row row' : Tuple}

/-- Two rows with the same bytes, apart from the value pointer. -/
structure SameRow (row row' : Tuple) : Prop where
  key : row.key = row'.key
  item : { row.item with value := 0 } = { row'.item with value := 0 }
  value : row.value = row'.value

/-- Two pages with the same bytes, apart from the value pointers. -/
structure SamePage (p q : Page) : Prop where
  hdr : p.hdr = q.hdr
  bitmap : p.bitmap = q.bitmap
  rows : ∀ i, SameRow (p.slots i) (q.slots i)

theorem SameRow.refl (row : Tuple) : SameRow row row := ⟨rfl, rfl, rfl⟩

theorem SameRow.trans {row'' : Tuple} (h : SameRow row row') (h' : SameRow row' row'') :
    SameRow row row'' :=
  ⟨h.key.trans h'.key, h.item.trans h'.item, h.value.trans h'.value⟩

theorem SamePage.refl (p : Page) : SamePage p p := ⟨rfl, rfl, fun _ => .refl _⟩

theorem SamePage.setRow (h : SamePage p q) {i : Nat} (hrow : SameRow row row') :
    SamePage { p with slots := update p.slots i row }
      { q with slots := update q.slots i row' } where
  hdr := h.hdr
  bitmap := h.bitmap
  rows j := by
    by_cases hj : j = i
    · subst hj
      simpa using hrow
    · simpa [update_of_ne hj] using h.rows j

theorem SamePage.setHdr (h : SamePage p q) (hdr : RmPageHdr) :
    SamePage { p with hdr := hdr } { q with hdr := hdr } :=
  ⟨rfl, h.bitmap, h.rows⟩

theorem SameRow.overwrite (h : SameRow row row') (r : RmRecord) :
    SameRow (row.overwrite r) (row'.overwrite r) where
  key := rfl
  item := rfl
  value := by
    show r.value ++ row.value.drop _ = r.value ++ row'.value.drop _
    rw [h.value]

end Same

variable {tab : Table} {p₀ : Page} {s s' : State} {t slotNo node : Nat} {tx : DTX} {addr : UInt64}

/-- The row of the record goes into a slot of the table's pages and is not longer than the slot. -/
def Table.Holds (tab : Table) : LogBody → Prop
  | .insert _ rid value | .update _ rid value =>
    rid.slotNo < tab.fileHdr.numRecordsPerPage ∧ value.value.length ≤ tab.valueSize
  | _ => True

/-- Redo of the logged records gives the page, and their rows fit the slots. -/
structure Synced (tab : Table) (p₀ : Page) (s : State) : Prop where
  redo : ∃ q, (heapRedo tab.fileHdr).redoAll s.records p₀ = .next q ∧ SamePage q s.page
  holds : ∀ log ∈ s.records, tab.Holds log.body

variable {body : LogBody}

theorem addLog_eq_next (h : s.addLog node body = .next s') :
    ∃ log : LogRecord, log.body = body ∧ log.prevLsn = s.page.hdr.llsn ∧
      s.page.hdr.llsn < log.lsn ∧ s'.records = s.records ++ [log] ∧ s'.txs = s.txs ∧
      s'.page = { s.page with hdr := s.page.hdr.advance log.lsn } := by
  unfold State.addLog at h
  split at h
  · cases h
    exact ⟨_, rfl, rfl, (lt_nextPageLLSN _ _).2, rfl, rfl, rfl⟩
  · cases h

/-- A step that changes the page and logs one record keeps the pages in step if redo of the record
makes the same change. -/
theorem Synced.addLog (h : Synced tab p₀ s) {s₁ : State}
    (hs : s₁.addLog node body = .next s') (hholds : tab.Holds body)
    (hrecords : s₁.records = s.records) (hllsn : s₁.page.hdr.llsn = s.page.hdr.llsn)
    (hredo : ∀ q log, SamePage q s.page → log.body = body → log.followsOn q.hdr →
      ∃ ws, redoOnPage tab.fileHdr log q = .next ws ∧
        SamePage (ws.foldl Page.perform q) { s₁.page with hdr := s₁.page.hdr.advance log.lsn }) :
    Synced tab p₀ s' := by
  obtain ⟨⟨q, hq, hsame⟩, hlogged⟩ := h
  obtain ⟨log, hbody, hprev, hlt, hlog, -, hpage⟩ := addLog_eq_next hs
  have hfollows : log.followsOn q.hdr := by
    rw [LogRecord.followsOn_iff, hsame.hdr, ← hllsn]
    exact ⟨hlt, hprev⟩
  obtain ⟨ws, hws, hsame'⟩ := hredo q log hsame hbody hfollows
  refine ⟨⟨ws.foldl Page.perform q, ?_, hpage ▸ hsame'⟩, fun r hr => ?_⟩
  · rw [hlog, hrecords]
    exact RedoModel.redoAll_append.2 ⟨q, hq, RedoModel.redoAll_cons.2 ⟨ws, hws, rfl⟩⟩
  · rw [hlog, hrecords, List.mem_append, List.mem_singleton] at hr
    rcases hr with hr | rfl
    · exact hlogged r hr
    · exact hbody ▸ hholds

theorem redoOnPage_update {log : LogRecord} {q : Page} {table : String} {rid : Rid} {value : RmRecord}
    (hbody : log.body = .update table rid value)
    (hslot : rid.slotNo < tab.fileHdr.numRecordsPerPage) (hfollows : log.followsOn q.hdr) :
    redoOnPage tab.fileHdr log q =
      .next [.updateTuple rid.slotNo value, .updateHdr (q.hdr.advance log.lsn)] := by
  unfold redoOnPage LogRecord.pageForLog
  simp only [hbody, LogBody.redoWrites, cassert_bind hslot]
  exact cassert_bind hfollows _

variable {row : Tuple}

/-- A row is written and logged as a whole: redo gives the row if the record has its key and its
fields, and its value over the old one. -/
theorem Synced.updateRow (h : Synced tab p₀ s) {value : RmRecord}
    (hs : (s.setRow slotNo row).addLog node (.update tab.name ⟨tab.pageNo, slotNo⟩ value) = .next s')
    (hslot : slotNo < tab.fileHdr.numRecordsPerPage) (hlen : value.value.length ≤ tab.valueSize)
    (hrow : SameRow ((s.page.slots slotNo).overwrite value) row) : Synced tab p₀ s' := by
  refine h.addLog hs ⟨hslot, hlen⟩ rfl rfl fun q log hsame hbody hfollows => ?_
  refine ⟨_, redoOnPage_update hbody hslot hfollows, ?_⟩
  rw [hsame.hdr]
  exact (hsame.setRow (((hsame.rows slotNo).overwrite value).trans hrow)).setHdr _

theorem Synced.found (h : Synced tab p₀ s) :
    Synced tab p₀ (s.setRow slotNo (s.getDataItem slotNo addr)) := by
  obtain ⟨⟨q, hq, hsame⟩, hlogged⟩ := h
  refine ⟨⟨q, hq, hsame.hdr, hsame.bitmap, fun i => ?_⟩, hlogged⟩
  by_cases hi : i = slotNo
  · subst hi
    show SameRow _ (update s.page.slots i _ i)
    rw [update_self]
    exact (hsame.rows i).trans ⟨rfl, rfl, rfl⟩
  · show SameRow _ (update s.page.slots slotNo _ i)
    rw [update_of_ne hi]
    exact hsame.rows i

/-- The first `size` bytes of `new`, written over `old`, give `new`. -/
def Covers (size : Nat) (old new : List UInt8) : Prop :=
  new.take size ++ old.drop (new.take size).length = new

theorem Covers.refl (size : Nat) (value : List UInt8) : Covers size value value := by
  unfold Covers
  rw [List.length_take]
  rcases Nat.le_total size value.length with hle | hle
  · rw [Nat.min_eq_left hle, List.take_append_drop]
  · rw [Nat.min_eq_right hle, List.take_of_length_le hle, List.drop_length, List.append_nil]

variable {size : Nat}

theorem covers_of_drop {old new : List UInt8} (hlen : old.length ≤ new.length)
    (hdrop : new.drop size = old.drop size) : Covers size old new := by
  unfold Covers
  rw [List.length_take]
  rcases Nat.le_total size new.length with hle | hle
  · rw [Nat.min_eq_left hle, ← hdrop, List.take_append_drop]
  · rw [Nat.min_eq_right hle, List.take_of_length_le hle, List.drop_eq_nil_of_le hlen,
      List.append_nil]

theorem copyInto_zero (value bytes : List UInt8) :
    copyInto value 0 bytes = bytes ++ value.drop bytes.length := by
  simp [copyInto]

theorem length_copyInto_ge (value : List UInt8) (offset : Nat) (bytes : List UInt8) :
    value.length ≤ (copyInto value offset bytes).length := by
  simp only [copyInto, List.length_append, List.length_take, List.length_drop]
  omega

variable {value : List UInt8}

theorem drop_copyInto {bytes : List UInt8} {offset : Nat} (hle : offset + bytes.length ≤ size) :
    (copyInto value offset bytes).drop size = value.drop size := by
  unfold copyInto
  rcases Nat.lt_or_ge value.length (offset + bytes.length) with hlt | hge
  · -- the value ends before the column does: nothing is left behind it
    have hrest : value.drop (offset + bytes.length) = [] := List.drop_eq_nil_of_le hlt.le
    rw [hrest, List.append_nil, List.drop_eq_nil_of_le, List.drop_eq_nil_of_le (by omega)]
    simp only [List.length_append, List.length_take]
    omega
  · have hlen : (value.take offset ++ bytes).length = offset + bytes.length := by
      rw [List.length_append, List.length_take]
      omega
    rw [List.drop_append, hlen, List.drop_eq_nil_of_le (hlen.le.trans hle), List.nil_append,
      List.drop_drop, Nat.add_sub_cancel' hle]

theorem covers_setClauses {setClauses : List (Nat × List UInt8)}
    (hle : ∀ c ∈ setClauses, c.1 + c.2.length ≤ size) (value : List UInt8) :
    Covers size value (setClauses.foldl (fun value c => copyInto value c.1 c.2) value) := by
  suffices ∀ new, value.length ≤ new.length → new.drop size = value.drop size →
      Covers size value (setClauses.foldl (fun value c => copyInto value c.1 c.2) new) from
    this value le_rfl rfl
  induction setClauses with
  | nil => exact fun new hlen hdrop => covers_of_drop hlen hdrop
  | cons c cs ih =>
    intro new hlen hdrop
    refine ih (fun c hc => hle c (List.mem_cons_of_mem _ hc)) _ ?_ ?_
    · exact hlen.trans (length_copyInto_ge _ _ _)
    · rw [drop_copyInto (hle c List.mem_cons_self), hdrop]

theorem addLog_frame (h : s.addLog node body = .next s') :
    s'.txs = s.txs ∧ s'.page.slots = s.page.slots := by
  obtain ⟨log, -, -, -, -, htxs, hpage⟩ := addLog_eq_next h
  rw [hpage]
  exact ⟨htxs, rfl⟩

variable {key : Option UInt64}

theorem Synced.addUpdateLog (h : Synced tab p₀ s) {commitTs : Nat}
    (hs : (s.setRow slotNo row).addUpdateLog tab node row.item key slotNo value commitTs = .next s')
    (hslot : slotNo < tab.fileHdr.numRecordsPerPage) (hsize : row.item.valueSize = tab.valueSize)
    (hkey : key.getD noKey = row.key)
    (hcommit : commitTs ≠ 0 → row.item.commitTimeStamp = commitTs)
    (hvalue : value.take row.item.valueSize.toNat ++
      (s.page.slots slotNo).value.drop (value.take row.item.valueSize.toNat).length = row.value) :
    Synced tab p₀ s' := by
  have hitem : (if commitTs ≠ 0 then { row.item with commitTimeStamp := commitTs } else row.item) =
      row.item := by
    split
    · rename_i hne
      rw [← hcommit hne]
    · rfl
  unfold State.addUpdateLog at hs
  simp only [hitem, hkey] at hs
  refine h.updateRow hs hslot ?_ ⟨rfl, rfl, hvalue⟩
  rw [List.length_take, hsize, Int.toNat_natCast]
  exact Nat.min_le_left _ _

theorem addUpdateLog_frame {item : DataItem} {commitTs : Nat}
    (h : (s.setRow slotNo row).addUpdateLog tab node item key slotNo value commitTs = .next s') :
    s'.txs = s.txs ∧ s'.page.slots = update s.page.slots slotNo row :=
  addLog_frame h

theorem Synced.lockRow (h : Synced tab p₀ s) {lockType : UInt64}
    {timeStamp holder owner : Nat}
    (hs : (s.setRow slotNo row).addLockLog tab node slotNo lockType timeStamp holder owner =
      .next s')
    (hslot : slotNo < tab.fileHdr.numRecordsPerPage)
    (hrow : SameRow { s.page.slots slotNo with
      item := (s.page.slots slotNo).item.withLock lockType timeStamp (UInt8.ofNat holder)
        (UInt8.ofNat owner) } row) : Synced tab p₀ s' := by
  refine h.addLog hs trivial rfl rfl fun q log hsame hbody hfollows => ?_
  refine ⟨[.updateItem slotNo ((q.slots slotNo).item.withLock lockType timeStamp (UInt8.ofNat holder)
    (UInt8.ofNat owner)), .updateHdr (q.hdr.advance log.lsn)], ?_, ?_⟩
  · unfold redoOnPage LogRecord.pageForLog
    simp only [hbody, LogBody.redoWrites, cassert_bind hslot]
    exact cassert_bind hfollows _
  · rw [hsame.hdr]
    refine (hsame.setRow (SameRow.trans ⟨?_, ?_, ?_⟩ hrow)).setHdr _
    · exact (hsame.rows slotNo).key
    · have hitem := (hsame.rows slotNo).item
      simp only [DataItem.mk.injEq] at hitem
      simp only [DataItem.withLock, hitem]
    · exact (hsame.rows slotNo).value

theorem Synced.insertRow (h : Synced tab p₀ s) {value : RmRecord}
    (hs : State.addLog { s with page :=
        { hdr := { s.page.hdr with numRecords := s.page.hdr.numRecords + 1 }
          bitmap := update s.page.bitmap slotNo true
          slots := update s.page.slots slotNo row } } node
      (.insert tab.name ⟨tab.pageNo, slotNo⟩ value) = .next s')
    (hslot : slotNo < tab.fileHdr.numRecordsPerPage) (hlen : value.value.length ≤ tab.valueSize)
    (hfree : s.page.bitmap slotNo = false)
    (hrow : SameRow ((s.page.slots slotNo).overwrite value) row) : Synced tab p₀ s' := by
  refine h.addLog hs ⟨hslot, hlen⟩ rfl rfl fun q log hsame hbody hfollows => ?_
  have hfree' : q.bitmap slotNo = false := hsame.bitmap ▸ hfree
  refine ⟨[.writePage
    { hdr := { q.hdr.advance log.lsn with numRecords := q.hdr.numRecords + 1 }
      bitmap := update q.bitmap slotNo true
      slots := update q.slots slotNo ((q.slots slotNo).overwrite value) }], ?_, ?_⟩
  · unfold redoOnPage LogRecord.pageForLog
    simp only [hbody, LogBody.redoWrites, cassert_bind hslot]
    refine (cassert_bind hfollows _).trans ?_
    exact cassert_bind hfree' _
  · refine ⟨?_, ?_, ?_⟩
    · rw [hsame.hdr]
      rfl
    · show update q.bitmap slotNo true = update s.page.bitmap slotNo true
      rw [hsame.bitmap]
    · exact (hsame.setRow (((hsame.rows slotNo).overwrite value).trans hrow)).rows

end Dtx
