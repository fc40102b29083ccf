import HybridCloud.Dtx.Proofs.SqlLocks

/-!
# What SQL steps do to a page when no other transaction is active

For each step of a transaction whose rows nobody else has locked, there is a lemma which says that
the step completes and what becomes of the row states, of the bitmap and of the transaction
(`PageStep`).
-/

namespace Dtx

open Outcome Storage Logging Function
open State hiding update

/-- The fields of a row that SQL transactions read. -/
structure RowState where
  key : UInt64
  value : List UInt8
  lock : UInt64
  timeStamp : Nat
  valid : UInt8
  userInsert : UInt8
  valueSize : Int

/-- What SQL statements see of a row. -/
def rowState (row : Tuple) : RowState where
  key := row.key
  value := row.value
  lock := row.item.lock
  timeStamp := row.item.timeStamp
  valid := row.item.valid
  userInsert := row.item.userInsert
  valueSize := row.item.valueSize

/-- What they see of the row of a slot. -/
def State.rowStates (s : State) (slotNo : Nat) : RowState := rowState (s.page.slots slotNo)

/-- The longest record of a row fits the replay buffer. -/
def Table.RecordsFit (tab : Table) : Prop :=
  LOG_HEADER_SIZE + (33 + (HeapLayout.sizeofDataItem + tab.valueSize) + tab.name.utf8ByteSize) ≤
    LOG_REPLAY_BUFFER_SIZE

/-- A row gets a new state and a new bit, and transaction `t` becomes `tx'`. -/
structure PageStep (s s' : State) (t slotNo : Nat) (x : RowState) (bit : Bool) (tx' : DTX) : Prop where
  rows : s'.rowStates = update s.rowStates slotNo x
  bits : s'.page.bitmap = update s.page.bitmap slotNo bit
  tx : s'.txs t = some tx'

variable {tab : Table} {s s' s₁ s₂ : State} {t slotNo node : Nat} {tx tx' : DTX} {addr : UInt64}

theorem rowStates_setRow (row : Tuple) :
    (s.setRow slotNo row).rowStates = update s.rowStates slotNo (rowState row) := by
  funext i
  show rowState (update s.page.slots slotNo row i) = _
  by_cases hi : i = slotNo
  · subst hi
    rw [update_self, update_self]
  · rw [update_of_ne hi, update_of_ne hi]
    rfl

theorem addLog_of_fits {body : LogBody} (h : LOG_HEADER_SIZE + body.size ≤ LOG_REPLAY_BUFFER_SIZE) :
    ∃ s', s.addLog node body = .next s' ∧ s'.rowStates = s.rowStates ∧
      s'.page.bitmap = s.page.bitmap := by
  refine ⟨_, dif_pos h, rfl, rfl⟩

theorem length_take_le (value : List UInt8) {size : Int} {n : Nat} (h : size = n) :
    (value.take size.toNat).length ≤ n := by
  subst h
  simp

/-- A row is written and logged. -/
theorem addUpdateLog_next (hfit : tab.RecordsFit) (s : State) (node slotNo : Nat) (row : Tuple)
    (key : Option UInt64) (value : List UInt8) (commitTs : Nat)
    (hsize : row.item.valueSize = tab.valueSize) :
    ∃ s', (s.setRow slotNo row).addUpdateLog tab node row.item key slotNo value commitTs =
        .next s' ∧
      s'.rowStates = update s.rowStates slotNo (rowState row) ∧
      s'.page.bitmap = update s.page.bitmap slotNo (s.page.bitmap slotNo) := by
  rw [← rowStates_setRow, update_eq_self]
  refine addLog_of_fits ?_
  have hlen := length_take_le value hsize
  unfold Table.RecordsFit at hfit
  simp only [LogBody.size]
  omega

theorem addInsertLog_next (hfit : tab.RecordsFit) (s : State) (node slotNo : Nat) (item : DataItem)
    (key : Option UInt64) (value : List UInt8) (hsize : item.valueSize = tab.valueSize) :
    ∃ s', s.addInsertLog tab node item key value slotNo = .next s' ∧
      s'.rowStates = s.rowStates ∧ s'.page.bitmap = s.page.bitmap := by
  refine addLog_of_fits ?_
  have hlen := length_take_le value hsize
  unfold Table.RecordsFit at hfit
  simp only [LogBody.size]
  omega

theorem addDeleteLog_next (hfit : tab.RecordsFit) (s : State) (node slotNo : Nat) :
    ∃ s', s.addDeleteLog tab node slotNo = .next s' ∧
      s'.rowStates = s.rowStates ∧ s'.page.bitmap = s.page.bitmap := by
  refine addLog_of_fits ?_
  unfold Table.RecordsFit at hfit
  simp only [LogBody.size]
  omega

theorem PageStep.found (htx : s.txs t = some tx) (addr : UInt64) :
    PageStep s (s.setRow slotNo (s.getDataItem slotNo addr)) t slotNo (s.rowStates slotNo)
      (s.page.bitmap slotNo) tx where
  rows := rowStates_setRow _
  bits := (update_eq_self slotNo s.page.bitmap).symm
  tx := htx

theorem PageStep.setTx {x : RowState} {bit : Bool} (h : PageStep s s' t slotNo x bit tx)
    (tx' : DTX) : PageStep s (s'.setTx t tx') t slotNo x bit tx' where
  rows := h.rows
  bits := h.bits
  tx := update_self ..

/-- The row is unlocked, or the transaction has it: as a reader, alone, or as the writer. -/
def DTX.Alone (tx : DTX) (lock : UInt64) (slotNo : Nat) : Prop :=
  (lock = UNLOCKED ∧ slotNo ∉ tx.readKeys ∧ slotNo ∉ tx.writeKeys) ∨
  (lock = 1 ∧ slotNo ∈ tx.readKeys ∧ slotNo ∉ tx.writeKeys) ∨
  (lock = EXCLUSIVE_LOCKED ∧ slotNo ∉ tx.readKeys ∧ slotNo ∈ tx.writeKeys)

/-- The transaction is the writer of the row now. -/
structure DTX.Takes (tx tx' : DTX) (slotNo : Nat) : Prop where
  mem_writeKeys : ∀ i, i ∈ tx'.writeKeys ↔ i = slotNo ∨ i ∈ tx.writeKeys
  mem_readKeys : ∀ i, i ∈ tx'.readKeys ↔ i ≠ slotNo ∧ i ∈ tx.readKeys
  phase : tx'.phase = tx.phase

theorem takes_insert (hread : slotNo ∉ tx.readKeys) :
    DTX.Takes tx { tx with writeKeys := tx.writeKeys.insert slotNo } slotNo where
  mem_writeKeys i := List.mem_insert_iff
  mem_readKeys i := by
    constructor
    · intro hi
      refine ⟨?_, hi⟩
      rintro rfl
      exact hread hi
    · exact And.right
  phase := rfl

theorem takes_upgrade :
    DTX.Takes tx { tx with
      readKeys := tx.readKeys.filter (· ≠ slotNo)
      writeKeys := tx.writeKeys.insert slotNo } slotNo where
  mem_writeKeys i := List.mem_insert_iff
  mem_readKeys i := by simp [and_comm]
  phase := rfl

theorem takes_self (hread : slotNo ∉ tx.readKeys) (hwrite : slotNo ∈ tx.writeKeys) :
    DTX.Takes tx tx slotNo where
  mem_writeKeys i := by
    constructor
    · exact Or.inr
    · rintro (rfl | hi)
      · exact hwrite
      · exact hi
  mem_readKeys i := by
    constructor
    · intro hi
      refine ⟨?_, hi⟩
      rintro rfl
      exact hread hi
    · exact And.right
  phase := rfl

theorem DTX.Takes.setWriteSet (h : tx.Takes tx' slotNo) (writes : List WriteRecord) :
    tx.Takes { tx' with writeSet := writes } slotNo :=
  ⟨h.mem_writeKeys, h.mem_readKeys, h.phase⟩

/-- `UPDATE` and `DELETE` leave the row out: it is not valid, the transaction has deleted it, or the
transaction has not written it and its conditions fail. -/
def DTX.Skips (tx : DTX) (x : RowState) (slotNo : Nat) (conds : Bool) : Prop :=
  x.valid = 0 ∨ if slotNo ∈ tx.writeKeys then x.userInsert = 1 else conds = false

theorem writeLock_alone (item : DataItem) (conds : Bool) (halone : tx.Alone item.lock slotNo) :
    (if slotNo ∈ tx.writeKeys then item.userInsert = 1 else conds = false) ∧
      writeLock tx item slotNo conds = .skip ∨
    ¬ (if slotNo ∈ tx.writeKeys then item.userInsert = 1 else conds = false) ∧
      ∃ tx', writeLock tx item slotNo conds = .locked tx' ∧ tx.Takes tx' slotNo ∧
        tx'.writeSet = tx.writeSet ∧ tx'.node = tx.node := by
  unfold writeLock
  rcases halone with ⟨hlock, hread, hwrite⟩ | ⟨hlock, hread, hwrite⟩ | ⟨hlock, hread, hwrite⟩
  · have hzero : ¬ item.lock ≠ 0 := not_not_intro hlock
    rw [if_neg hwrite, if_neg hzero]
    cases conds with
    | false => exact .inl ⟨rfl, rfl⟩
    | true => exact .inr ⟨nofun, _, rfl, takes_insert hread, rfl, rfl⟩
  · have hne : item.lock ≠ 0 := by
      rw [hlock]
      decide
    rw [if_neg hwrite, if_pos hne, if_pos ⟨hlock, hread⟩]
    cases conds with
    | false => exact .inl ⟨rfl, rfl⟩
    | true => exact .inr ⟨nofun, _, rfl, takes_upgrade, rfl, rfl⟩
  · have hne : item.lock ≠ 0 := by
      rw [hlock]
      decide
    have hnot : ¬ (item.lock = 1 ∧ slotNo ∈ tx.readKeys) := fun h => hread h.2
    rw [if_pos hwrite, if_pos hne, if_neg hnot, if_neg (not_not_intro hlock),
      if_neg (not_not_intro hwrite)]
    by_cases hdeleted : item.userInsert = 1
    · rw [if_pos hdeleted]
      exact .inl ⟨hdeleted, rfl⟩
    · rw [if_neg hdeleted]
      exact .inr ⟨hdeleted, _, rfl, takes_self hread hwrite, rfl, rfl⟩

section WriteRow

variable {conds : Bool} (addr : UInt64) (wtype : WType) (userInsert : UInt8)
  (change : List UInt8 → List UInt8)

theorem writeRow_skips (tab : Table) (hexec : tx.phase = .executing) (htx : s.txs t = some tx)
    (halone : tx.Alone (s.rowStates slotNo).lock slotNo)
    (hskip : tx.Skips (s.rowStates slotNo) slotNo conds) :
    ∃ s', s.writeRow tab t tx addr slotNo conds wtype userInsert change = .next s' ∧
      PageStep s s' t slotNo (s.rowStates slotNo) (s.page.bitmap slotNo) tx := by
  refine ⟨_, ?_, PageStep.found htx addr⟩
  unfold writeRow
  rw [await_bind hexec]
  by_cases hvalid : (s.getDataItem slotNo addr).item.valid = 0
  · rw [if_pos hvalid]
    rfl
  · rw [if_neg hvalid]
    have hskip := hskip.resolve_left hvalid
    rcases writeLock_alone (s.getDataItem slotNo addr).item conds halone with
      ⟨-, hlock⟩ | ⟨hnot, -⟩
    · rw [hlock]
      rfl
    · exact absurd hskip hnot

theorem writeRow_writes (hexec : tx.phase = .executing)
    (halone : tx.Alone (s.rowStates slotNo).lock slotNo)
    (hskip : ¬ tx.Skips (s.rowStates slotNo) slotNo conds) (hfit : tab.RecordsFit)
    (hsize : (s.rowStates slotNo).valueSize = tab.valueSize) :
    ∃ s' tx', s.writeRow tab t tx addr slotNo conds wtype userInsert change = .next s' ∧
      PageStep s s' t slotNo
        { s.rowStates slotNo with
          lock := EXCLUSIVE_LOCKED
          timeStamp := t
          userInsert := userInsert
          value := change (s.rowStates slotNo).value }
        (s.page.bitmap slotNo) tx' ∧
      tx.Takes tx' slotNo ∧
      tx'.writeSet =
        { wtype, slotNo,
          value := (s.rowStates slotNo).value.take (s.rowStates slotNo).valueSize.toNat,
          key := (s.rowStates slotNo).key } :: tx.writeSet := by
  obtain ⟨hvalid, hlocked⟩ := not_or.1 hskip
  rcases writeLock_alone (s.getDataItem slotNo addr).item conds halone with
    ⟨hskip', -⟩ | ⟨-, tx', hlock, htakes, hwrites, -⟩
  · exact absurd hskip' hlocked
  · let row := s.getDataItem slotNo addr
    let item := { row.item with
      lock := EXCLUSIVE_LOCKED
      timeStamp := t
      holderNode := UInt8.ofNat tx'.node
      userInsert := userInsert }
    obtain ⟨s₂, hlog, hrows, hbits⟩ := addUpdateLog_next hfit s tx'.node slotNo
      { row with item := item, value := change row.value } (tab.pkPtr row.key) (change row.value) 0
      hsize
    refine ⟨s₂.setTx t _, _, ?_, ⟨hrows, hbits, update_self ..⟩, htakes.setWriteSet _,
      congrArg (List.cons _) hwrites⟩
    have hvalid : ¬ (s.getDataItem slotNo addr).item.valid = 0 := hvalid
    unfold writeRow
    rw [await_bind hexec, if_neg hvalid, hlock]
    show (addUpdateLog _ _ _ _ _ _ _ _ >>= _) = _
    rw [hlog]
    rfl

end WriteRow

theorem insertNew_full (tab : Table) {primaryKey : UInt64} {value : List UInt8}
    (hexec : tx.phase = .executing)
    (hfull : firstFree s.page.bitmap tab.fileHdr.numRecordsPerPage = none) :
    s.insertNew tab t tx primaryKey value = .next s := by
  unfold insertNew
  rw [await_bind hexec, hfull]
  rfl

theorem insertNew_writes (tab : Table) (primaryKey : UInt64) (value : List UInt8)
    (hexec : tx.phase = .executing)
    (hfree : firstFree s.page.bitmap tab.fileHdr.numRecordsPerPage = some slotNo)
    (hlock : (s.rowStates slotNo).lock = UNLOCKED) (hread : slotNo ∉ tx.readKeys)
    (hpk : tab.primaryKey = true) (hfit : tab.RecordsFit) :
    ∃ s' tx', s.insertNew tab t tx primaryKey value = .next s' ∧
      PageStep s s' t slotNo
        { key := primaryKey
          value := copyInto (s.rowStates slotNo).value 0 value
          lock := EXCLUSIVE_LOCKED
          timeStamp := t
          valid := 1
          userInsert := 0
          valueSize := tab.valueSize } true tx' ∧
      tx.Takes tx' slotNo ∧
      tx'.writeSet =
        { wtype := .insertTuple, slotNo, value := [], key := primaryKey } :: tx.writeSet := by
  let row := s.page.slots slotNo
  let item := { row.item with
    lock := EXCLUSIVE_LOCKED
    timeStamp := t
    holderNode := UInt8.ofNat tx.node
    valid := 1
    tableId := tab.tableId
    valueSize := tab.valueSize
    userInsert := 0 }
  let s₁ : State := { s with page := { s.page with
    hdr := { s.page.hdr with numRecords := s.page.hdr.numRecords + 1 } } }
  let s₂ := s₁.setRow slotNo { key := primaryKey, item := item, value := copyInto row.value 0 value }
  let s₃ : State := { s₂ with page :=
    { s₂.page with bitmap := update s₂.page.bitmap slotNo true } }
  obtain ⟨s₄, hlog, hrows, hbits⟩ := addInsertLog_next hfit s₃ tx.node slotNo item
    (tab.pkPtr primaryKey) (copyInto row.value 0 value) rfl
  have hinsert : insertLock tx row.item slotNo =
      .locked { tx with writeKeys := tx.writeKeys.insert slotNo } := by
    unfold insertLock
    have hzero : lockAsInt row.item.lock = 0 := by
      rw [show row.item.lock = UNLOCKED from hlock]
      decide
    rw [if_neg (not_not_intro hzero)]
  have hrows₃ : s₃.rowStates = update s.rowStates slotNo _ := rowStates_setRow (s := s₁) _
  refine ⟨s₄.setTx t _, _, ?_, ⟨hrows.trans hrows₃, hbits, update_self ..⟩,
    (takes_insert hread).setWriteSet _, rfl⟩
  unfold insertNew
  rw [await_bind hexec, hfree]
  simp only [hpk, if_true]
  rw [show insertLock tx _ slotNo = _ from hinsert]
  show (addInsertLog _ s₃ _ _ _ _ _ >>= _) = _
  rw [hlog]
  rfl

theorem insertExisting_aborts (tab : Table) (addr : UInt64) (value : List UInt8)
    (hexec : tx.phase = .executing)
    (htx : s.txs t = some tx) (hpk : tab.primaryKey = true)
    (hlock : slotNo ∈ tx.writeKeys → (s.rowStates slotNo).lock = EXCLUSIVE_LOCKED)
    (hvalid : (s.rowStates slotNo).valid = 1) :
    ∃ s', s.insertExisting tab t tx addr slotNo value = .next s' ∧
      PageStep s s' t slotNo (s.rowStates slotNo) (s.page.bitmap slotNo)
        { tx with phase := .aborting } := by
  unfold insertExisting
  rw [await_bind ⟨hexec, hpk⟩]
  by_cases hmem : slotNo ∈ tx.writeKeys
  · have hlock : (s.getDataItem slotNo addr).item.lock = EXCLUSIVE_LOCKED := hlock hmem
    have hvalid : ¬ (s.getDataItem slotNo addr).item.valid = 0 := by
      rw [show (s.getDataItem slotNo addr).item.valid = 1 from hvalid]
      decide
    refine ⟨_, ?_, (PageStep.found htx addr).setTx _⟩
    rw [if_neg (not_not_intro hmem), cassert_bind hlock, if_neg hvalid]
    rfl
  · refine ⟨_, ?_, PageStep.setTx ⟨?_, ?_, htx⟩ _⟩
    · rw [if_pos hmem]
      rfl
    · exact (update_eq_self slotNo s.rowStates).symm
    · exact (update_eq_self slotNo s.page.bitmap).symm

theorem unlockTuple_of_lock {item : DataItem} (hlock : item.lock = EXCLUSIVE_LOCKED)
    (htime : item.timeStamp = t) :
    unlockTupleWithHandoff item t none = .next { item with lock := UNLOCKED } := by
  unfold unlockTupleWithHandoff
  rw [cassert_bind ⟨hlock, htime⟩]
  rfl

/-- The row after the commit of its writer. -/
def committed (x : RowState) : RowState :=
  { x with
    lock := UNLOCKED
    userInsert := 0
    valid := if x.userInsert = 1 then 0 else x.valid }

theorem slots_setRow (row : Tuple) : (s.setRow slotNo row).page.slots slotNo = row :=
  update_self ..

theorem removeDeleted_of_fits (hfit : tab.RecordsFit) (s : State) (node slotNo : Nat) (row : Tuple) :
    ∃ s', s.removeDeleted tab node slotNo row = .next s' ∧
      s'.page.slots slotNo = { row with
        item := { row.item with valid := if row.item.userInsert = 1 then 0 else row.item.valid } } ∧
      s'.rowStates = update s.rowStates slotNo (rowState (s'.page.slots slotNo)) ∧
      s'.page.bitmap = update s.page.bitmap slotNo
        (if row.item.userInsert = 1 then false else s.page.bitmap slotNo) := by
  unfold removeDeleted
  by_cases hdeleted : row.item.userInsert = 1
  · simp only [if_pos hdeleted]
    let s₁ := s.setRow slotNo { row with item := { row.item with valid := 0 } }
    let s₂ : State := { s₁ with page :=
      { s₁.page with bitmap := update s₁.page.bitmap slotNo false } }
    obtain ⟨s₃, hlog, hrows, hbits⟩ := addDeleteLog_next hfit s₂ node slotNo
    have hslot : s₃.page.slots slotNo = { row with item := { row.item with valid := 0 } } := by
      obtain ⟨-, hslots⟩ := addLog_frame hlog
      rw [hslots]
      exact slots_setRow _
    refine ⟨s₃, hlog, hslot, ?_, hbits⟩
    rw [hslot, hrows]
    exact rowStates_setRow _
  · simp only [if_neg hdeleted]
    refine ⟨_, rfl, slots_setRow _, ?_, (update_eq_self slotNo s.page.bitmap).symm⟩
    rw [slots_setRow]
    exact rowStates_setRow _

theorem commitWriteKey_next (tab : Table) (addr : UInt64) {commitTs : Nat}
    (hcommit : tx.phase = .committing commitTs)
    (hmem : slotNo ∈ tx.writeKeys) (hlock : (s.rowStates slotNo).lock = EXCLUSIVE_LOCKED)
    (htime : (s.rowStates slotNo).timeStamp = t) (hfit : tab.RecordsFit)
    (hsize : (s.rowStates slotNo).valueSize = tab.valueSize) :
    ∃ s', s.commitWriteKey tab t tx addr slotNo none = .next s' ∧
      PageStep s s' t slotNo (committed (s.rowStates slotNo))
        (if (s.rowStates slotNo).userInsert = 1 then false else s.page.bitmap slotNo)
        { tx with writeKeys := tx.writeKeys.filter (· ≠ slotNo) } := by
  have hlock' : (s.getDataItem slotNo addr).item.lock = EXCLUSIVE_LOCKED := hlock
  obtain ⟨s₁, hremoved, hslot, hrows₁, hbits₁⟩ :=
    removeDeleted_of_fits hfit s tx.node slotNo (s.getDataItem slotNo addr)
  let row := s₁.page.slots slotNo
  let item := { row.item with userInsert := 0, version := commitTs, commitTimeStamp := commitTs }
  have hitem : unlockTupleWithHandoff item t none = .next { item with lock := UNLOCKED } := by
    refine unlockTuple_of_lock ?_ ?_
    · show (s₁.page.slots slotNo).item.lock = _
      rw [hslot]
      exact hlock
    · show (s₁.page.slots slotNo).item.timeStamp = _
      rw [hslot]
      exact htime
  obtain ⟨s₂, hlog, hrows₂, hbits₂⟩ := addUpdateLog_next hfit s₁ tx.node slotNo
    { row with item := { item with lock := UNLOCKED } } (some row.key) row.value commitTs
    (by
      show (s₁.page.slots slotNo).item.valueSize = _
      rw [hslot]
      exact hsize)
  refine ⟨s₂.setTx t { tx with writeKeys := tx.writeKeys.filter (· ≠ slotNo) }, ?_,
    ⟨?_, ?_, update_self ..⟩⟩
  · unfold commitWriteKey
    split
    · rename_i ts hphase
      obtain rfl : ts = commitTs := Phase.committing.inj (hphase.symm.trans hcommit)
      rw [await_bind hmem, cassert_bind hlock', hremoved]
      show (unlockTupleWithHandoff item t none >>= _) = _
      rw [hitem]
      show (addUpdateLog _ _ _ _ _ _ _ _ >>= _) = _
      rw [hlog]
      rfl
    · rename_i hphase
      exact absurd hcommit (hphase commitTs)
  · show s₂.rowStates = _
    have hrow : rowState row = { s.rowStates slotNo with
        valid := if (s.rowStates slotNo).userInsert = 1 then 0 else (s.rowStates slotNo).valid } := by
      show rowState (s₁.page.slots slotNo) = _
      rw [hslot]
      rfl
    have hcommitted : rowState { row with item := { item with lock := UNLOCKED } } =
        { rowState row with lock := UNLOCKED, userInsert := 0 } := rfl
    rw [hrows₂, hrows₁, update_idem, hcommitted, hrow]
    rfl
  · exact (hbits₂.trans (update_eq_self ..)).trans hbits₁

theorem unlockReadKey_alone (tab : Table) (addr : UInt64) (newLock : UInt64 → UInt64)
    (key : UInt64 → Option UInt64)
    (hmem : slotNo ∈ tx.readKeys) (hlock : (s.rowStates slotNo).lock = 1) (hnew : newLock 1 = UNLOCKED)
    (hfit : tab.RecordsFit) (hsize : (s.rowStates slotNo).valueSize = tab.valueSize) :
    ∃ s', s.unlockReadKey tab t tx addr slotNo newLock key = .next s' ∧
      PageStep s s' t slotNo { s.rowStates slotNo with lock := UNLOCKED } (s.page.bitmap slotNo)
        { tx with readKeys := tx.readKeys.filter (· ≠ slotNo) } := by
  let row := s.getDataItem slotNo addr
  have hlock : row.item.lock = 1 := hlock
  let item := { row.item with lock := newLock row.item.lock }
  obtain ⟨s₁, hlog, hrows, hbits⟩ := addUpdateLog_next hfit s tx.node slotNo
    { row with item := item } (key row.key) row.value 0 hsize
  have hguard : row.item.lock ≠ EXCLUSIVE_LOCKED ∧ row.item.lock ≠ 0 := by
    rw [hlock]
    decide
  refine ⟨s₁.setTx t { tx with readKeys := tx.readKeys.filter (· ≠ slotNo) }, ?_,
    ⟨?_, hbits, update_self ..⟩⟩
  · unfold unlockReadKey
    rw [await_bind hmem, cassert_bind hguard]
    show (addUpdateLog _ _ _ _ _ _ _ _ >>= _) = _
    rw [hlog]
    rfl
  · show s₁.rowStates = _
    rw [hrows]
    congr 1
    show rowState { row with item := { row.item with lock := newLock row.item.lock } } = _
    rw [hlock, hnew]
    rfl

section Undo

variable {write : WriteRecord}

/-- The row without the write. -/
def undone (x : RowState) (write : WriteRecord) : RowState :=
  match write.wtype with
  | .deleteTuple => x
  | .insertTuple => { x with valid := 0 }
  | .updateTuple => { x with value := copyInto x.value 0 (write.value.take x.valueSize.toNat) }

theorem undoWrite_next (hfit : tab.RecordsFit) (node : Nat) (addr : UInt64)
    (hsize : (s.rowStates write.slotNo).valueSize = tab.valueSize)
    (hbit : write.wtype = .insertTuple → s.page.bitmap write.slotNo = true) :
    ∃ s', s.undoWrite tab node (s.getDataItem write.slotNo addr) write = .next s' ∧
      s'.rowStates = update s.rowStates write.slotNo
        (undone (s.rowStates write.slotNo) write) ∧
      s'.page.bitmap = update s.page.bitmap write.slotNo
        (if write.wtype = .insertTuple then false else s.page.bitmap write.slotNo) := by
  let row := s.getDataItem write.slotNo addr
  unfold undoWrite undone
  cases hw : write.wtype with
  | deleteTuple =>
    exact addUpdateLog_next hfit s node write.slotNo row (tab.pkPtr row.key) row.value 0 hsize
  | insertTuple =>
    let s₁ := s.setRow write.slotNo { row with item := { row.item with valid := 0 } }
    let s₂ : State := { s₁ with page :=
      { s₁.page with bitmap := update s₁.page.bitmap write.slotNo false } }
    obtain ⟨s₃, hlog, hrows, hbits⟩ := addDeleteLog_next hfit s₂ node write.slotNo
    refine ⟨s₃, ?_, ?_, ?_⟩
    · exact (cassert_bind (hbit hw) _).trans hlog
    · rw [hrows]
      exact rowStates_setRow _
    · exact hbits
  | updateTuple =>
    exact addUpdateLog_next hfit s node write.slotNo
      { row with value := copyInto row.value 0 (write.value.take row.item.valueSize.toNat) }
      (tab.pkPtr row.key) write.value 0 hsize

theorem abortUndo_next (tab : Table) (addr : UInt64) (habort : tx.phase = .aborting)
    (hread : tx.readKeys = [])
    (hwrites : tx.writeSet = [write]) (hmem : write.slotNo ∈ tx.writeKeys)
    (hkey : (s.rowStates write.slotNo).key = write.key) (hfit : tab.RecordsFit)
    (hsize : (s.rowStates write.slotNo).valueSize = tab.valueSize)
    (hbit : write.wtype = .insertTuple → s.page.bitmap write.slotNo = true) :
    ∃ s', s.abortUndo tab t tx addr = .next s' ∧
      PageStep s s' t write.slotNo (undone (s.rowStates write.slotNo) write)
        (if write.wtype = .insertTuple then false else s.page.bitmap write.slotNo)
        { tx with writeSet := [] } := by
  obtain ⟨s₁, hundo, hrows, hbits⟩ :=
    undoWrite_next hfit tx.node addr hsize hbit
  refine ⟨s₁.setTx t { tx with writeSet := [] }, ?_, ⟨hrows, hbits, update_self ..⟩⟩
  have hkey : tab.primaryKey = true → (s.getDataItem write.slotNo addr).key = write.key :=
    fun _ => hkey
  unfold abortUndo
  rw [await_bind ⟨habort, hread⟩]
  split
  · rename_i hnil
    rw [hwrites] at hnil
    cases hnil
  · rename_i w ws hcons
    rw [hwrites] at hcons
    obtain ⟨rfl, rfl⟩ := List.cons.inj hcons
    rw [cassert_bind hmem, cassert_bind hkey, hundo]
    rfl

theorem abortWriteKey_next (tab : Table) (addr : UInt64) (habort : tx.phase = .aborting)
    (hread : tx.readKeys = [])
    (hwrites : tx.writeSet = []) (hmem : slotNo ∈ tx.writeKeys)
    (hlock : (s.rowStates slotNo).lock = EXCLUSIVE_LOCKED)
    (htime : (s.rowStates slotNo).timeStamp = t) (hfit : tab.RecordsFit)
    (hsize : (s.rowStates slotNo).valueSize = tab.valueSize) :
    ∃ s', s.abortWriteKey tab t tx addr slotNo none = .next s' ∧
      PageStep s s' t slotNo { s.rowStates slotNo with lock := UNLOCKED } (s.page.bitmap slotNo)
        { tx with writeKeys := tx.writeKeys.filter (· ≠ slotNo) } := by
  let row := s.getDataItem slotNo addr
  have hitem : unlockTupleWithHandoff row.item t none =
      .next { row.item with lock := UNLOCKED } := unlockTuple_of_lock hlock htime
  obtain ⟨s₁, hlog, hrows, hbits⟩ := addUpdateLog_next hfit s tx.node slotNo
    { row with item := { row.item with lock := UNLOCKED } } (tab.pkPtr row.key) row.value 0 hsize
  refine ⟨s₁.setTx t { tx with writeKeys := tx.writeKeys.filter (· ≠ slotNo) }, ?_,
    ⟨hrows, hbits, update_self ..⟩⟩
  unfold abortWriteKey
  rw [await_bind ⟨habort, hread, hwrites, hmem⟩]
  show (unlockTupleWithHandoff row.item t none >>= _) = _
  rw [hitem]
  show (addUpdateLog _ _ _ _ _ _ _ _ >>= _) = _
  rw [hlog]
  rfl

end Undo

end Dtx
