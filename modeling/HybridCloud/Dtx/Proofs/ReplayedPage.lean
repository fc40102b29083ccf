import HybridCloud.Dtx.Proofs.RowRedo
import HybridCloud.Storage.Proofs.RowEndProofs

/-!
# The replayed page and the page on the compute node

The code that changes the page on a compute node and the code that redoes its log records do not
agree everywhere: `Replays` names the steps whose records say what the step did. In a run of such
steps the two pages stay in step, as long as the rows of the table end in their page.
-/

namespace Dtx

open Outcome Storage Logging Function

variable {tab : Table} {p₀ : Page} {s s' : State} {t slotNo node : Nat} {tx : DTX} {addr : UInt64}

/-- Rows of the table stay rows of the table. -/
def KeepsRows (tab : Table) (p p' : Page) : Prop :=
  ∀ i, (p.slots i).item.valueSize = tab.valueSize → (p'.slots i).item.valueSize = tab.valueSize

theorem keepsRows_update {p p' : Page} {i : Nat} {row : Tuple}
    (hslots : p'.slots = update p.slots i row)
    (hsize : row.item.valueSize = (p.slots i).item.valueSize ∨ row.item.valueSize = tab.valueSize) :
    KeepsRows tab p p' := by
  intro j hj
  rw [hslots]
  by_cases hji : j = i
  · subst hji
    rw [update_self]
    rcases hsize with hsize | hsize
    · exact hsize.trans hj
    · exact hsize
  · rw [update_of_ne hji]
    exact hj

theorem keepsRows_found :
    KeepsRows tab s.page (s.setRow slotNo (s.getDataItem slotNo addr)).page :=
  keepsRows_update rfl (.inl rfl)

/-- What a transaction remembers are rows of the page. -/
structure TxInv (tab : Table) (page : Page) (tx : DTX) : Prop where
  items : ∀ e ∈ tx.readWriteSet, tab.IsRow page e.slotNo ∧ e.value.length ≤ tab.valueSize
  readKeys : ∀ i ∈ tx.readKeys, tab.IsRow page i
  writeKeys : ∀ i ∈ tx.writeKeys, tab.IsRow page i
  writeSet : ∀ w ∈ tx.writeSet, tab.IsRow page w.slotNo

theorem KeepsRows.isRow {p p' : Page} (hrows : KeepsRows tab p p') {i : Nat}
    (h : tab.IsRow p i) : tab.IsRow p' i := ⟨h.1, hrows i h.2⟩

theorem TxInv.mono {p p' : Page} (h : TxInv tab p tx) (hrows : KeepsRows tab p p') :
    TxInv tab p' tx where
  items e he := ⟨hrows.isRow (h.items e he).1, (h.items e he).2⟩
  readKeys i hi := hrows.isRow (h.readKeys i hi)
  writeKeys i hi := hrows.isRow (h.writeKeys i hi)
  writeSet w hw := hrows.isRow (h.writeSet w hw)

variable {page : Page}

theorem TxInv.phase (h : TxInv tab page tx) (phase : Phase) :
    TxInv tab page { tx with phase := phase } :=
  ⟨h.items, h.readKeys, h.writeKeys, h.writeSet⟩

/-- The pages are in step, and every transaction knows rows of the page. -/
structure Inv (tab : Table) (p₀ : Page) (s : State) : Prop where
  synced : Synced tab p₀ s
  txs : ∀ t tx, s.txs t = some tx → TxInv tab s.page tx

variable {tx' : DTX}

theorem Inv.next (h : Inv tab p₀ s) {s₁ : State} (hsynced : Synced tab p₀ s₁)
    (hrows : KeepsRows tab s.page s₁.page) (htxs : s₁.txs = s.txs) (htx : TxInv tab s₁.page tx') :
    Inv tab p₀ (s₁.setTx t tx') where
  synced := ⟨hsynced.redo, hsynced.holds⟩
  txs u tx hu := by
    by_cases hut : u = t
    · subst hut
      have hu' : some tx' = some tx := by simpa [State.setTx] using hu
      exact Option.some.inj hu' ▸ htx
    · have hu' : s₁.txs u = some tx := by simpa [State.setTx, update_of_ne hut] using hu
      rw [htxs] at hu'
      exact (h.txs u tx hu').mono hrows

theorem Inv.found (h : Inv tab p₀ s) :
    Inv tab p₀ (s.setRow slotNo (s.getDataItem slotNo addr)) where
  synced := h.synced.found
  txs u tx hu := (h.txs u tx hu).mono keepsRows_found

theorem Inv.setTx (h : Inv tab p₀ s) (htx : TxInv tab s.page tx) : Inv tab p₀ (s.setTx t tx) :=
  h.next h.synced (fun _ hi => hi) rfl htx

variable {handoff : Option Handoff} {item : DataItem}

theorem unlockTupleWithHandoff_next {item' : DataItem}
    (h : State.unlockTupleWithHandoff item t handoff = .next item') :
    item'.valueSize = item.valueSize ∧ item'.commitTimeStamp = item.commitTimeStamp := by
  simp only [State.unlockTupleWithHandoff, bind_eq_next] at h
  obtain ⟨-, -, h⟩ := h
  split at h <;> cases h <;> exact ⟨rfl, rfl⟩

theorem Inv.txExe (h : Inv tab p₀ s) (htx : s.txs t = some tx) (hrow : tab.IsRow s.page slotNo)
    {wait : Bool} (hs : s.txExe tab t tx addr slotNo false wait = .next s') : Inv tab p₀ s' := by
  have hinv := h.txs t tx htx
  -- the copy of the row that goes into `read_write_set`
  have hitems : ∀ {page : Page}, KeepsRows tab s.page page → TxInv tab page { tx with
      readWriteSet := tx.readWriteSet ++ [⟨slotNo, (s.getDataItem slotNo addr).value.take
        (s.getDataItem slotNo addr).item.valueSize.toNat⟩] } := by
    intro page hkeep
    have hinv := hinv.mono hkeep
    refine ⟨fun e he => ?_, hinv.readKeys, hinv.writeKeys, hinv.writeSet⟩
    rcases List.mem_append.1 he with he | he
    · exact hinv.items e he
    · obtain rfl := List.mem_singleton.1 he
      refine ⟨hkeep.isRow hrow, ?_⟩
      have hsize : (s.getDataItem slotNo addr).item.valueSize = tab.valueSize := hrow.2
      rw [List.length_take, hsize, Int.toNat_natCast]
      exact Nat.min_le_left _ _
  simp only [State.txExe, bind_eq_next, await_eq_next, Bool.false_eq_true, if_false] at hs
  obtain ⟨-, -, hs⟩ := hs
  split at hs
  · simp only [bind_eq_next, pure_def, next.injEq] at hs
    obtain ⟨s₁, hlog, rfl⟩ := hs
    obtain ⟨htxs, hslots⟩ := addLog_frame hlog
    have hkeep : KeepsRows tab s.page s₁.page := keepsRows_update hslots (.inl rfl)
    exact h.next (h.synced.lockRow hlog hrow.1 ⟨rfl, rfl, rfl⟩) hkeep htxs (hitems hkeep)
  · split at hs
    · cases hs
      exact h.found.setTx (hitems keepsRows_found)
    · split at hs <;> cases hs
      · exact h.found
      · exact h.found.setTx ((hinv.mono keepsRows_found).phase _)

variable {value : List UInt8}

theorem Inv.setValue (h : Inv tab p₀ s) (htx : s.txs t = some tx)
    (hs : s.setValue t tx slotNo value = .next s') : Inv tab p₀ s' := by
  have hinv := h.txs t tx htx
  simp only [State.setValue, bind_eq_next, await_eq_next, pure_def, next.injEq] at hs
  obtain ⟨-, -, -, hlen, rfl⟩ := hs
  refine h.setTx ⟨fun e he => ?_, hinv.readKeys, hinv.writeKeys, hinv.writeSet⟩
  obtain ⟨e', he', rfl⟩ := List.mem_map.1 he
  obtain ⟨hrow, hle⟩ := hinv.items e' he'
  split
  · rename_i hslot
    exact ⟨hrow, (hlen e' he' hslot).ge.trans hle⟩
  · exact ⟨hrow, hle⟩

theorem Inv.updated (h : Inv tab p₀ s) {s₁ : State} {row : Tuple} {key : Option UInt64}
    {commitTs : Nat}
    (hs : (s.setRow slotNo row).addUpdateLog tab node row.item key slotNo value commitTs = .next s₁)
    (hinv : TxInv tab s.page tx') (hrow : tab.IsRow s.page slotNo)
    (hkey : key.getD noKey = row.key)
    (hsize : row.item.valueSize = (s.page.slots slotNo).item.valueSize)
    (hcommit : commitTs ≠ 0 → row.item.commitTimeStamp = commitTs)
    (hvalue : value.take row.item.valueSize.toNat ++
      (s.page.slots slotNo).value.drop (value.take row.item.valueSize.toNat).length = row.value) :
    Inv tab p₀ (s₁.setTx t tx') := by
  obtain ⟨htxs, hslots⟩ := addUpdateLog_frame hs
  have hkeep : KeepsRows tab s.page s₁.page := keepsRows_update hslots (.inl hsize)
  exact h.next (h.synced.addUpdateLog hs hrow.1 (hsize.trans hrow.2) hkey hcommit hvalue) hkeep htxs
    (hinv.mono hkeep)

section

variable (h : TxInv tab page tx)
include h

theorem TxInv.filterItems (p : DataSetItem → Bool) :
    TxInv tab page { tx with readWriteSet := tx.readWriteSet.filter p } :=
  ⟨fun e he => h.items e (List.mem_filter.1 he).1, h.readKeys, h.writeKeys, h.writeSet⟩

theorem TxInv.filterReadKeys (p : Nat → Bool) :
    TxInv tab page { tx with readKeys := tx.readKeys.filter p } :=
  ⟨h.items, fun i hi => h.readKeys i (List.mem_filter.1 hi).1, h.writeKeys, h.writeSet⟩

theorem TxInv.filterWriteKeys (p : Nat → Bool) :
    TxInv tab page { tx with writeKeys := tx.writeKeys.filter p } :=
  ⟨h.items, h.readKeys, fun i hi => h.writeKeys i (List.mem_filter.1 hi).1, h.writeSet⟩

theorem TxInv.addWrite {write : WriteRecord} (hrow : tab.IsRow page write.slotNo) :
      TxInv tab page { tx with writeSet := write :: tx.writeSet } :=
  ⟨h.items, h.readKeys, h.writeKeys, fun w hw => by
    rcases List.mem_cons.1 hw with rfl | hw
    · exact hrow
    · exact h.writeSet w hw⟩

theorem TxInv.addWriteKey (hrow : tab.IsRow page slotNo)
    {readKeys : List Nat} (hsub : readKeys ⊆ tx.readKeys) :
      TxInv tab page { tx with readKeys := readKeys, writeKeys := tx.writeKeys.insert slotNo } :=
  ⟨h.items, fun i hi => h.readKeys i (hsub hi), fun i hi => by
    rcases List.mem_insert_iff.1 hi with rfl | hi
    · exact hrow
    · exact h.writeKeys i hi, h.writeSet⟩

end

theorem Inv.txCommitSingle (h : Inv tab p₀ s) (htx : s.txs t = some tx)
    (hs : s.txCommitSingle tab t tx addr slotNo handoff = .next s') : Inv tab p₀ s' := by
  have hinv := h.txs t tx htx
  unfold State.txCommitSingle at hs
  split at hs
  · rename_i commitTs dataItem hphase hfind
    simp only [bind_eq_next, pure_def, next.injEq] at hs
    obtain ⟨item, hitem, s₁, hlog, rfl⟩ := hs
    obtain ⟨hsize, hcommit⟩ := unlockTupleWithHandoff_next hitem
    have hslot : dataItem.slotNo = slotNo := by simpa using List.find?_some hfind
    obtain ⟨hrow, hle⟩ := hinv.items dataItem (List.mem_of_find?_eq_some hfind)
    rw [hslot] at hrow
    -- the copy is not longer than the part of the value that is logged
    have hsize' : item.valueSize.toNat = tab.valueSize := by
      rw [hsize]
      exact (congrArg Int.toNat hrow.2).trans (Int.toNat_natCast _)
    refine h.updated hlog (hinv.filterItems _) hrow rfl hsize (fun _ => hcommit) ?_
    rw [List.take_of_length_le (hsize' ▸ hle), copyInto_zero]
    rfl
  · cases hs

theorem Inv.txAbortWorkLoad (h : Inv tab p₀ s) (htx : s.txs t = some tx)
    (hs : s.txAbortWorkLoad tab t tx addr slotNo handoff = .next s') : Inv tab p₀ s' := by
  have hinv := h.txs t tx htx
  simp only [State.txAbortWorkLoad, bind_eq_next, await_eq_next, pure_def, next.injEq] at hs
  obtain ⟨-, ⟨-, hmem⟩, item, hitem, s₁, hlog, rfl⟩ := hs
  obtain ⟨e, he, rfl⟩ := List.mem_map.1 hmem
  obtain ⟨hsize, -⟩ := unlockTupleWithHandoff_next hitem
  exact h.updated hlog (hinv.filterItems _) (hinv.items e he).1 rfl hsize
    (fun hne => absurd rfl hne) (Covers.refl _ _)

theorem writeLock_locked {conds : Bool} (h : TxInv tab page tx) (hrow : tab.IsRow page slotNo)
    (hlock : State.writeLock tx item slotNo conds = .locked tx') : TxInv tab page tx' := by
  unfold State.writeLock at hlock
  split at hlock
  · split at hlock
    · split at hlock <;> cases hlock
      exact h.addWriteKey hrow fun _ hi => (List.mem_filter.1 hi).1
    · split at hlock
      · cases hlock
      · split at hlock
        · cases hlock
        · split at hlock <;> cases hlock
          exact h
  · split at hlock <;> cases hlock
    exact h.addWriteKey hrow (List.Subset.refl _)

theorem Inv.writeRow (h : Inv tab p₀ s) (htx : s.txs t = some tx) (hpk : tab.primaryKey = true)
    (hrow : tab.IsRow s.page slotNo) {conds : Bool} {wtype : WType} {userInsert : UInt8}
    {change : List UInt8 → List UInt8}
    (hcovers : ∀ value, Covers tab.valueSize value (change value))
    (hs : s.writeRow tab t tx addr slotNo conds wtype userInsert change = .next s') :
    Inv tab p₀ s' := by
  have hinv := h.txs t tx htx
  simp only [State.writeRow, bind_eq_next, await_eq_next] at hs
  obtain ⟨-, -, hs⟩ := hs
  split at hs
  · cases hs
    exact h.found
  · split at hs
    · cases hs
      exact h.found
    · cases hs
      exact h.found.setTx ((hinv.mono keepsRows_found).phase _)
    · rename_i tx' hlock
      simp only [bind_eq_next, pure_def, next.injEq] at hs
      obtain ⟨s₁, hlog, rfl⟩ := hs
      have hsize : (s.page.slots slotNo).item.valueSize.toNat = tab.valueSize :=
        (congrArg Int.toNat hrow.2).trans (Int.toNat_natCast _)
      refine h.updated hlog ((writeLock_locked hinv hrow hlock).addWrite hrow) hrow ?_ rfl
        (fun hne => absurd rfl hne) ?_
      · simp [Table.pkPtr, hpk]
      · show Covers (s.page.slots slotNo).item.valueSize.toNat _ _
        rw [hsize]
        exact hcovers _

theorem Inv.selectFrom (h : Inv tab p₀ s) (htx : s.txs t = some tx) (hpk : tab.primaryKey = true)
    (hrow : tab.IsRow s.page slotNo) (hs : s.selectFrom tab t tx addr slotNo = .next s') :
    Inv tab p₀ s' := by
  have hinv := h.txs t tx htx
  simp only [State.selectFrom, bind_eq_next, await_eq_next] at hs
  obtain ⟨-, -, hs⟩ := hs
  split at hs
  · split at hs <;> cases hs
    · exact h.found.setTx ((hinv.mono keepsRows_found).phase _)
    · exact h.found
  · simp only [bind_eq_next, pure_def, next.injEq] at hs
    obtain ⟨s₁, hlog, rfl⟩ := hs
    refine h.updated hlog ⟨hinv.items, ?_, hinv.writeKeys, hinv.writeSet⟩ hrow ?_ rfl
      (fun hne => absurd rfl hne) (Covers.refl _ _)
    · intro i hi
      rcases List.mem_insert_iff.1 hi with rfl | hi
      · exact hrow
      · exact hinv.readKeys i hi
    · simp [Table.pkPtr, hpk]

theorem firstFree_spec {bitmap : Nat → Bool} {n : Nat} (h : State.firstFree bitmap n = some slotNo) :
    slotNo < n ∧ bitmap slotNo = false := by
  exact ⟨List.mem_range.1 (List.mem_of_find?_eq_some h), by simpa using List.find?_some h⟩

theorem insertLock_locked (h : TxInv tab page tx) (hrow : tab.IsRow page slotNo)
    (hlock : State.insertLock tx item slotNo = .locked tx') : TxInv tab page tx' := by
  unfold State.insertLock at hlock
  dsimp only at hlock
  split at hlock
  · split at hlock
    · cases hlock
      exact h.addWriteKey hrow fun _ hi => (List.mem_filter.1 hi).1
    · split at hlock
      · cases hlock
      · split at hlock
        · cases hlock
        · split at hlock <;> cases hlock
          exact h
  · cases hlock
    exact h.addWriteKey hrow (List.Subset.refl _)

/-- Does the insert get as far as its log record? -/
def insertLogs (tab : Table) (s : State) (t : Nat) : Bool :=
  match s.txs t, State.firstFree s.page.bitmap tab.fileHdr.numRecordsPerPage with
  | some tx, some slotNo =>
    match State.insertLock tx (s.page.slots slotNo).item slotNo with
    | .locked _ => true
    | _ => false
  | _, _ => true

theorem Inv.insertNew (h : Inv tab p₀ s) (htx : s.txs t = some tx) (hpk : tab.primaryKey = true)
    (hlogs : insertLogs tab s t = true) {primaryKey : UInt64} (hlen : value.length = tab.valueSize)
    (hs : s.insertNew tab t tx primaryKey value = .next s') : Inv tab p₀ s' := by
  have hinv := h.txs t tx htx
  simp only [State.insertNew, bind_eq_next, await_eq_next] at hs
  obtain ⟨-, -, hs⟩ := hs
  split at hs
  · cases hs
    exact h
  · rename_i slotNo hfind
    obtain ⟨hslot, hfree⟩ := firstFree_spec hfind
    simp only [insertLogs, htx, hfind] at hlogs
    split at hs
    · rename_i hlock
      simp [hlock] at hlogs
    · rename_i hlock
      simp [hlock] at hlogs
    · rename_i tx' hlock
      simp only [bind_eq_next, pure_def, next.injEq] at hs
      obtain ⟨s₁, hlog, rfl⟩ := hs
      obtain ⟨htxs, hslots⟩ := addLog_frame hlog
      have hkeep : KeepsRows tab s.page s₁.page := keepsRows_update hslots (.inr rfl)
      have hrow : tab.IsRow s₁.page slotNo := by
        refine ⟨hslot, ?_⟩
        rw [hslots]
        simp [State.setRow]
      have hlen' : ((copyInto (s.page.slots slotNo).value 0 value).take
          (tab.valueSize : Int).toNat).length ≤ tab.valueSize := by
        rw [List.length_take, Int.toNat_natCast]
        exact Nat.min_le_left _ _
      refine h.next (h.synced.insertRow hlog hslot hlen' hfree ⟨?_, rfl, ?_⟩) hkeep htxs
        ((insertLock_locked (hinv.mono hkeep) hrow hlock).addWrite hrow)
      · simp [Tuple.overwrite, Table.pkPtr, hpk]
      · -- the record has the new value, which is as long as the part that is logged
        have hcopy : (copyInto (s.page.slots slotNo).value 0 value).take tab.valueSize = value := by
          rw [copyInto_zero, ← hlen, List.take_left']
          rfl
        show (copyInto (s.page.slots slotNo).value 0 value).take (tab.valueSize : Int).toNat ++
          List.drop ((copyInto (s.page.slots slotNo).value 0 value).take
            (tab.valueSize : Int).toNat).length _ = copyInto (s.page.slots slotNo).value 0 value
        rw [Int.toNat_natCast, hcopy, copyInto_zero]

theorem Inv.insertExisting (h : Inv tab p₀ s) (htx : s.txs t = some tx)
    (hvalid : (s.page.slots slotNo).item.valid ≠ 0)
    (hs : s.insertExisting tab t tx addr slotNo value = .next s') : Inv tab p₀ s' := by
  have hinv := h.txs t tx htx
  simp only [State.insertExisting, bind_eq_next, await_eq_next] at hs
  obtain ⟨-, -, hs⟩ := hs
  split at hs
  · cases hs
    exact h.setTx (hinv.phase _)
  · simp only [bind_eq_next] at hs
    obtain ⟨-, -, hs⟩ := hs
    split at hs
    · rename_i hzero
      exact absurd hzero hvalid
    · cases hs
      exact h.found.setTx ((hinv.mono keepsRows_found).phase _)

theorem Inv.commitWriteKey (h : Inv tab p₀ s) (htx : s.txs t = some tx)
    (hkept : (s.page.slots slotNo).item.userInsert ≠ 1)
    (hs : s.commitWriteKey tab t tx addr slotNo handoff = .next s') : Inv tab p₀ s' := by
  have hinv := h.txs t tx htx
  unfold State.commitWriteKey at hs
  split at hs
  · simp only [bind_eq_next, await_eq_next, pure_def, next.injEq] at hs
    obtain ⟨-, hmem, -, -, s₁, hs₁, item, hitem, s₂, hlog, rfl⟩ := hs
    obtain rfl : s.setRow slotNo (s.getDataItem slotNo addr) = s₁ := by
      unfold State.removeDeleted at hs₁
      rw [if_neg (show ¬ (s.getDataItem slotNo addr).item.userInsert = 1 from hkept)] at hs₁
      exact next.inj hs₁
    obtain ⟨hsize, hcommit⟩ := unlockTupleWithHandoff_next hitem
    have hinv : TxInv tab (s.setRow slotNo (s.getDataItem slotNo addr)).page tx :=
      hinv.mono keepsRows_found
    exact h.found.updated hlog (hinv.filterWriteKeys _)
      (hinv.writeKeys slotNo hmem) rfl hsize (fun _ => hcommit) (Covers.refl _ _)
  · cases hs

theorem Inv.unlockReadKey (h : Inv tab p₀ s) (htx : s.txs t = some tx)
    {newLock : UInt64 → UInt64} {key : UInt64 → Option UInt64} (hkey : ∀ k, key k = some k)
    (hs : s.unlockReadKey tab t tx addr slotNo newLock key = .next s') : Inv tab p₀ s' := by
  have hinv := h.txs t tx htx
  simp only [State.unlockReadKey, bind_eq_next, await_eq_next, pure_def, next.injEq] at hs
  obtain ⟨-, hmem, -, -, s₁, hlog, rfl⟩ := hs
  refine h.updated hlog (hinv.filterReadKeys _) (hinv.readKeys slotNo hmem) ?_ rfl
    (fun hne => absurd rfl hne) (Covers.refl _ _)
  rw [hkey]
  rfl

theorem Table.pkPtr_eq (hpk : tab.primaryKey = true) (key : UInt64) : tab.pkPtr key = some key := by
  simp [Table.pkPtr, hpk]

section

variable (h : Inv tab p₀ s) (htx : s.txs t = some tx)
include h htx

theorem Inv.commitReadKey
    (hs : s.commitReadKey tab t tx addr slotNo = .next s') : Inv tab p₀ s' := by
  unfold State.commitReadKey at hs
  split at hs
  · simp only [bind_eq_next] at hs
    obtain ⟨-, -, hs⟩ := hs
    exact h.unlockReadKey htx (fun _ => rfl) hs
  · cases hs

theorem Inv.abortReadKey
    (hpk : tab.primaryKey = true) (hs : s.abortReadKey tab t tx addr slotNo = .next s') :
    Inv tab p₀ s' := by
  simp only [State.abortReadKey, bind_eq_next] at hs
  obtain ⟨-, -, hs⟩ := hs
  exact h.unlockReadKey htx (Table.pkPtr_eq hpk) hs

/-- Does the rollback take an insert back next? -/
def undoesInsert (s : State) (t : Nat) : Bool :=
  match s.txs t with
  | some tx => tx.writeSet.head?.any (·.wtype = .insertTuple)
  | none => false

theorem Inv.abortUndo (hpk : tab.primaryKey = true)
    (hkept : undoesInsert s t = false) (hs : s.abortUndo tab t tx addr = .next s') :
    Inv tab p₀ s' := by
  have hinv := h.txs t tx htx
  simp only [State.abortUndo, bind_eq_next, await_eq_next] at hs
  obtain ⟨-, -, hs⟩ := hs
  split at hs
  · cases hs
  · rename_i write writes hset
    simp only [bind_eq_next, pure_def, next.injEq] at hs
    obtain ⟨-, -, -, -, s₁, hlog, rfl⟩ := hs
    simp only [undoesInsert, htx, hset, List.head?_cons, Option.any_some, decide_eq_false_iff_not]
      at hkept
    have hrow : tab.IsRow s.page write.slotNo :=
      hinv.writeSet write (hset ▸ List.mem_cons_self)
    have hrest : TxInv tab s.page { tx with writeSet := writes } :=
      ⟨hinv.items, hinv.readKeys, hinv.writeKeys, fun w hw =>
        hinv.writeSet w (hset ▸ List.mem_cons_of_mem _ hw)⟩
    have hkey := Table.pkPtr_eq hpk (s.getDataItem write.slotNo addr).key
    unfold State.undoWrite at hlog
    split at hlog
    · exact h.updated hlog hrest hrow (hkey ▸ rfl) rfl (fun hne => absurd rfl hne) (Covers.refl _ _)
    · rename_i htype
      exact absurd htype hkept
    · -- the old value is copied and logged
      exact h.updated hlog hrest hrow (hkey ▸ rfl) rfl (fun hne => absurd rfl hne)
        (copyInto_zero _ _).symm

theorem Inv.abortWriteKey
    (hpk : tab.primaryKey = true) (hs : s.abortWriteKey tab t tx addr slotNo handoff = .next s') :
    Inv tab p₀ s' := by
  have hinv := h.txs t tx htx
  simp only [State.abortWriteKey, bind_eq_next, await_eq_next, pure_def, next.injEq] at hs
  obtain ⟨-, ⟨-, -, -, hmem⟩, item, hitem, s₁, hlog, rfl⟩ := hs
  obtain ⟨hsize, -⟩ := unlockTupleWithHandoff_next hitem
  refine h.updated hlog (hinv.filterWriteKeys _) (hinv.writeKeys slotNo hmem) ?_ hsize
    (fun hne => absurd rfl hne) (Covers.refl _ _)
  rw [Table.pkPtr_eq hpk]
  rfl

/-- The steps whose log records say what they did to the page. Not among them are: a lock that is
released at once but logged as taken; SQL statements on a table without primary key, which log another
key than the page has; an insert that is broken off after it has raised `num_records_`; an insert into
the place of a deleted row; and the steps that log a DELETE record, which take the row out of the
page without lowering `num_records_`. -/
def Replays (tab : Table) (s : State) : Action → Prop
  | .txBegin _ _ => True
  | .run t _ op =>
    match op with
    | .txExe _ releaseImme _ => releaseImme = false
    | .update _ _ _ | .delete _ _ | .selectFrom _ | .abortReadKey _ | .abortWriteKey _ _ =>
      tab.primaryKey = true
    | .insertNew _ _ => tab.primaryKey = true ∧ insertLogs tab s t = true
    | .insertExisting slotNo _ => (s.page.slots slotNo).item.valid ≠ 0
    | .commitWriteKey slotNo _ => (s.page.slots slotNo).item.userInsert ≠ 1
    | .abortUndo => tab.primaryKey = true ∧ undoesInsert s t = false
    | _ => True

instance (tab : Table) (s : State) (a : Action) : Decidable (Replays tab s a) :=
  match a with
  | .txBegin _ _ => .isTrue trivial
  | .run _ _ op =>
    match op with
    | .txExe _ _ _ | .update _ _ _ | .delete _ _ | .selectFrom _ | .abortReadKey _
    | .abortWriteKey _ _ => inferInstanceAs (Decidable (_ = _))
    | .insertNew _ _ | .abortUndo => inferInstanceAs (Decidable (_ ∧ _))
    | .insertExisting _ _ | .commitWriteKey _ _ => inferInstanceAs (Decidable (¬ _))
    | .setValue _ _ | .startCommit _ | .startAbort | .txCommitSingle _ _ | .txAbortWorkLoad _ _
    | .commitReadKey _ => .isTrue trivial

theorem Inv.runOp {op : Op}
    (hallowed : Allowed tab s (.run t addr op)) (hreplays : Replays tab s (.run t addr op))
    (hs : s.runOp tab t tx addr op = .next s') : Inv tab p₀ s' := by
  have hinv := h.txs t tx htx
  cases op with
  | txExe slotNo releaseImme wait =>
    obtain rfl : releaseImme = false := hreplays
    exact h.txExe htx hallowed hs
  | setValue slotNo value => exact h.setValue htx hs
  | startCommit commitTs | startAbort =>
    simp only [State.runOp, bind_eq_next, pure_def, next.injEq] at hs
    obtain ⟨-, -, rfl⟩ := hs
    exact h.setTx (hinv.phase _)
  | txCommitSingle slotNo handoff => exact h.txCommitSingle htx hs
  | txAbortWorkLoad slotNo handoff => exact h.txAbortWorkLoad htx hs
  | update slotNo conds setClauses =>
    exact h.writeRow htx hreplays hallowed.1 (covers_setClauses hallowed.2) hs
  | delete slotNo conds => exact h.writeRow htx hreplays hallowed (Covers.refl _) hs
  | selectFrom slotNo => exact h.selectFrom htx hreplays hallowed hs
  | insertNew primaryKey value => exact h.insertNew htx hreplays.1 hreplays.2 hallowed hs
  | insertExisting slotNo value => exact h.insertExisting htx hreplays hs
  | commitWriteKey slotNo handoff => exact h.commitWriteKey htx hreplays hs
  | commitReadKey slotNo => exact h.commitReadKey htx hs
  | abortReadKey slotNo => exact h.abortReadKey htx hreplays hs
  | abortUndo => exact h.abortUndo htx hreplays.1 hreplays.2 hs
  | abortWriteKey slotNo handoff => exact h.abortWriteKey htx hreplays hs

end

theorem Inv.step (h : Inv tab p₀ s) {a : Action} (hallowed : Allowed tab s a)
    (hreplays : Replays tab s a) (taken : s.step tab a = .next s') : Inv tab p₀ s' := by
  cases a with
  | txBegin t node =>
    simp only [State.step, bind_eq_next, pure_def, next.injEq] at taken
    obtain ⟨-, -, rfl⟩ := taken
    refine h.setTx ⟨?_, ?_, ?_, ?_⟩ <;> simp
  | run t addr op =>
    simp only [State.step] at taken
    split at taken
    · cases taken
    · rename_i tx htx
      exact h.runOp htx hallowed hreplays taken

/-- The slots of the table lie inside its pages, and have room for a row. -/
structure Table.RowsInside (tab : Table) : Prop where
  slots : tab.fileHdr.SlotsInside
  row : HeapLayout.sizeofDataItem + tab.valueSize ≤ tab.fileHdr.recordSize

theorem Table.RowsInside.endsInPage (h : tab.RowsInside) {body : LogBody} (hbody : tab.Holds body) :
    body.EndsInPage tab.fileHdr := by
  cases body with
  | insert table rid value | update table rid value =>
    obtain ⟨hslot, hlen⟩ := hbody
    exact row_ends_in_page h.slots hslot ((Nat.add_le_add_left hlen _).trans h.row)
  | _ => trivial

/-- In every run whose steps are all logged as they are made, on a table whose slots lie inside its
pages, in every state reached: redo of the page's records, as far as they lie in the page, on the page
as it was before them fails no check and gives the compute node's page: the same header with its LLSN
and its number of records, the same bitmap, and in every slot the same key, value and fields apart
from the value pointer. -/
theorem replayed_page_is_compute_page {currentLLSN : Nat → Nat} (hinside : tab.RowsInside)
    (run : Run (State.step tab) (fun s a => Allowed tab s a ∧ Replays tab s a)
      (State.init p₀ currentLLSN) s) :
    ∃ q, (heapRedo tab.fileHdr).redoAll (s.records.map (·.inPage tab.fileHdr)) p₀ = .next q ∧
      SamePage q s.page := by
  have h : Inv tab p₀ s := by
    refine run.invariant ⟨⟨⟨p₀, rfl, .refl p₀⟩, ?_⟩, ?_⟩ fun h hok taken => h.step hok.1 hok.2 taken
    · intro log hlog
      cases hlog
    · intro t tx ht
      cases ht
  have hrecords : s.records.map (·.inPage tab.fileHdr) = s.records := by
    rw [List.map_congr_left fun log hlog =>
      LogRecord.inPage_eq_self (hinside.endsInPage (h.synced.holds log hlog)), List.map_id']
  rw [hrecords]
  exact h.synced.redo

section Example

/-- A table with room for two rows on a page. -/
def exampleTable (primaryKey : Bool) : Table where
  tableId := 1
  name := "t"
  primaryKey := primaryKey
  pageNo := 1
  fileHdr := { recordSize := 73, numPages := 2, numRecordsPerPage := 2, bitmapSize := 1 }
  valueSize := 1

/-- One row, with key 7, in slot 0. -/
def examplePage : Page where
  hdr := { nextFreePageNo := -1, numRecords := 1, llsn := 0, preLLSN := 0 }
  bitmap i := i == 0
  slots _ := { key := 7, item := { DataItem.init with tableId := 1, valueSize := 1 }, value := [3] }

/-- A transaction writes the row and hands its lock over to another one, which rolls back; a third one
inserts a row, changes it and reads the old row. -/
def threeTransactionsRun : List Action :=
  [.txBegin 5 0, .run 5 64 (.txExe 0 false false), .run 5 0 (.setValue 0 [9]),
    .run 5 0 (.startCommit 8), .run 5 64 (.txCommitSingle 0 (some ⟨6, 1⟩)),
    .txBegin 6 1, .run 6 96 (.txExe 0 false true), .run 6 0 .startAbort,
    .run 6 96 (.txAbortWorkLoad 0 none),
    .txBegin 7 0, .run 7 64 (.insertNew 11 [4]), .run 7 64 (.update 1 true [(0, [5])]),
    .run 7 64 (.selectFrom 0), .run 7 0 (.startCommit 12), .run 7 64 (.commitWriteKey 1 none),
    .run 7 64 (.commitReadKey 0)]

theorem replayed_page_is_compute_page_threeTransactions :
    ∃ s : State, s.page.hdr.numRecords = 2 ∧ (s.page.slots 1).key = 11 ∧ (s.page.slots 1).value = [5] ∧
      ∃ q, (heapRedo (exampleTable true).fileHdr).redoAll
          (s.records.map (·.inPage (exampleTable true).fileHdr)) examplePage = .next q ∧
        SamePage q s.page := by
  have hinside : (exampleTable true).RowsInside :=
    ⟨HeapLayout.RmFileHdr.slotsInside_of_room (by decide) (by decide) (by decide), by decide⟩
  obtain ⟨s, run, hs⟩ := Run.of_reaches (State.step (exampleTable true))
    (fun s a => Allowed (exampleTable true) s a ∧ Replays (exampleTable true) s a)
    threeTransactionsRun (State.init examplePage fun _ => 0)
    (fun s => decide (s.page.hdr.numRecords = 2 ∧ (s.page.slots 1).key = 11 ∧
      (s.page.slots 1).value = [5])) (by decide +kernel)
  obtain ⟨hnum, hkey, hvalue⟩ := of_decide_eq_true hs
  exact ⟨s, hnum, hkey, hvalue, replayed_page_is_compute_page hinside run⟩

/-- Redo of the records completes with a page that stands in relation `P` to the page of the compute
node. -/
def replayedTo (p₀ : Page) (P : Page → Page → Bool) (s : State) : Bool :=
  match (heapRedo ⟨73, 2, 2, 1⟩).redoAll s.records p₀ with
  | .next q => P q s.page
  | _ => false

theorem replayedTo_spec {P : Page → Page → Bool} (h : replayedTo p₀ P s = true) :
    ∃ q, (heapRedo ⟨73, 2, 2, 1⟩).redoAll s.records p₀ = .next q ∧ P q s.page = true := by
  unfold replayedTo at h
  split at h
  · rename_i q hq
    exact ⟨q, hq, h⟩
  · cases h

/-- A transaction deletes the row and commits. -/
def deleteRun : List Action :=
  [.txBegin 5 0, .run 5 64 (.delete 0 true), .run 5 0 (.startCommit 8),
    .run 5 64 (.commitWriteKey 0 none)]

/-- Three ways in which the replayed page and the compute node's page come to differ at the same LLSN:
a committed delete (in `num_records_`), an insert into a table without primary key (in the key of the
row), and a lock that is released at once (in the lock of the row). -/
theorem replayed_page_differs :
    (∃ s, Run (State.step (exampleTable true)) (Allowed (exampleTable true))
        (State.init examplePage fun _ => 0) s ∧
      ∃ q, (heapRedo ⟨73, 2, 2, 1⟩).redoAll s.records examplePage = .next q ∧
        (q.hdr.llsn = s.page.hdr.llsn ∧ q.hdr.numRecords = 0 ∧ s.page.hdr.numRecords = 1)) ∧
    (∃ s, Run (State.step (exampleTable false)) (Allowed (exampleTable false))
        (State.init examplePage fun _ => 0) s ∧
      ∃ q, (heapRedo ⟨73, 2, 2, 1⟩).redoAll s.records examplePage = .next q ∧
        (q.hdr.llsn = s.page.hdr.llsn ∧ (q.slots 1).key = noKey ∧ (s.page.slots 1).key = 0)) ∧
    ∃ s, Run (State.step (exampleTable true)) (Allowed (exampleTable true))
        (State.init examplePage fun _ => 0) s ∧
      ∃ q, (heapRedo ⟨73, 2, 2, 1⟩).redoAll s.records examplePage = .next q ∧
        (q.hdr.llsn = s.page.hdr.llsn ∧ (q.slots 0).item.lock = EXCLUSIVE_LOCKED ∧
          (s.page.slots 0).item.lock = UNLOCKED) := by
  refine ⟨?_, ?_, ?_⟩
  · obtain ⟨s, run, hs⟩ := Run.of_reaches (State.step (exampleTable true))
      (Allowed (exampleTable true)) deleteRun (State.init examplePage fun _ => 0)
      (replayedTo examplePage fun q p => decide (q.hdr.llsn = p.hdr.llsn ∧ q.hdr.numRecords = 0 ∧
        p.hdr.numRecords = 1)) (by decide +kernel)
    obtain ⟨q, hq, hdiffer⟩ := replayedTo_spec hs
    exact ⟨s, run, q, hq, of_decide_eq_true hdiffer⟩
  · obtain ⟨s, run, hs⟩ := Run.of_reaches (State.step (exampleTable false))
      (Allowed (exampleTable false)) [.txBegin 5 0, .run 5 64 (.insertNew 0 [4])]
      (State.init examplePage fun _ => 0)
      (replayedTo examplePage fun q p => decide (q.hdr.llsn = p.hdr.llsn ∧ (q.slots 1).key = noKey ∧
        (p.slots 1).key = 0)) (by decide +kernel)
    obtain ⟨q, hq, hdiffer⟩ := replayedTo_spec hs
    exact ⟨s, run, q, hq, of_decide_eq_true hdiffer⟩
  · obtain ⟨s, run, hs⟩ := Run.of_reaches (State.step (exampleTable true))
      (Allowed (exampleTable true)) [.txBegin 5 0, .run 5 64 (.txExe 0 true false)]
      (State.init examplePage fun _ => 0)
      (replayedTo examplePage fun q p => decide (q.hdr.llsn = p.hdr.llsn ∧
        (q.slots 0).item.lock = EXCLUSIVE_LOCKED ∧ (p.slots 0).item.lock = UNLOCKED))
      (by decide +kernel)
    obtain ⟨q, hq, hdiffer⟩ := replayedTo_spec hs
    exact ⟨s, run, q, hq, of_decide_eq_true hdiffer⟩

end Example

end Dtx
