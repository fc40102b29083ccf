import HybridCloud.Dtx.TupleLock
import HybridCloud.Dtx.Proofs.ReplayedPage

/-!
# The tuple locks of SQL transactions

Each critical section of a SQL transaction moves the lock of at most one row of the page
(`step_lockMove`). `KeepsAccount` names the steps that are fine for the lock word: a reader aborts
only while it is the only one, an insert takes only a slot that nobody else has locked, and the
count of readers does not grow into the mark of a writer.
-/

namespace Dtx

open Outcome Storage Logging Function
open State hiding update

/-- The steps of SQL transactions. Nobody waits for their locks, so there is nobody to hand a lock
to. -/
def Op.IsSql : Op → Prop
  | .txExe _ _ _ | .setValue _ _ | .txCommitSingle _ _ | .txAbortWorkLoad _ _ => False
  | .commitWriteKey _ handoff | .abortWriteKey _ handoff => handoff = none
  | .startCommit _ | .startAbort | .update _ _ _ | .delete _ _ | .selectFrom _ | .insertNew _ _
  | .insertExisting _ _ | .commitReadKey _ | .abortReadKey _ | .abortUndo => True

/-- A step of an SQL transaction, or the begin of a transaction. -/
def Action.IsSql : Action → Prop
  | .txBegin _ _ => True
  | .run _ _ op => op.IsSql

instance (op : Op) : Decidable op.IsSql :=
  match op with
  | .txExe _ _ _ | .setValue _ _ | .txCommitSingle _ _ | .txAbortWorkLoad _ _ => .isFalse id
  | .commitWriteKey _ _ | .abortWriteKey _ _ => inferInstanceAs (Decidable (_ = _))
  | .startCommit _ | .startAbort | .update _ _ _ | .delete _ _ | .selectFrom _ | .insertNew _ _
  | .insertExisting _ _ | .commitReadKey _ | .abortReadKey _ | .abortUndo => .isTrue trivial

instance (a : Action) : Decidable a.IsSql :=
  match a with
  | .txBegin _ _ => .isTrue trivial
  | .run _ _ op => inferInstanceAs (Decidable op.IsSql)

/-- Nobody but the transaction has the row locked. -/
def DTX.HasAlone (tx : DTX) (item : DataItem) (slotNo : Nat) : Prop :=
  item.lock = UNLOCKED ∨ (item.lock = 1 ∧ slotNo ∈ tx.readKeys) ∨ slotNo ∈ tx.writeKeys

instance (tx : DTX) (item : DataItem) (slotNo : Nat) : Decidable (tx.HasAlone item slotNo) :=
  inferInstanceAs (Decidable (_ ∨ _))

/-- The lock was taken. -/
def State.WriteLock.isLocked : WriteLock → Bool
  | .locked _ => true
  | .skip | .conflict => false

namespace State

variable (tab : Table)

/-- The lock of a row and the transactions that have it. -/
def tupleLock (s : State) (slotNo : Nat) : TupleLock where
  word := (s.page.slots slotNo).item.lock
  timeStamp := (s.page.slots slotNo).item.timeStamp
  readers := {t | ∃ tx, s.txs t = some tx ∧ slotNo ∈ tx.readKeys}
  writers := {t | ∃ tx, s.txs t = some tx ∧ slotNo ∈ tx.writeKeys}

/-- A step of transaction `tx` that the lock words can follow. -/
def OpKeepsAccount (s : State) (tx : DTX) : Op → Prop
  | .selectFrom slotNo =>
    slotNo ∈ tx.readKeys ∨ (s.page.slots slotNo).item.lock + 1 ≠ EXCLUSIVE_LOCKED
  | .abortReadKey slotNo => (s.page.slots slotNo).item.lock = 1
  | .insertNew _ _ =>
    ∀ slotNo ∈ firstFree s.page.bitmap tab.fileHdr.numRecordsPerPage,
      (insertLock tx (s.page.slots slotNo).item slotNo).isLocked = true →
        tx.HasAlone (s.page.slots slotNo).item slotNo
  | .txExe _ _ _ | .setValue _ _ | .txCommitSingle _ _ | .txAbortWorkLoad _ _ | .startCommit _
  | .startAbort | .update _ _ _ | .delete _ _ | .insertExisting _ _ | .commitWriteKey _ _
  | .commitReadKey _ | .abortUndo | .abortWriteKey _ _ => True

/-- The lock words can follow the step. -/
def KeepsAccount (s : State) : Action → Prop
  | .txBegin _ _ => True
  | .run t _ op => ∀ tx ∈ s.txs t, s.OpKeepsAccount tab tx op

end State

variable {tab : Table} {s s' s₁ : State} {t slotNo node : Nat} {tx tx' : DTX} {addr : UInt64}

section

variable (htx : s.txs t = some tx)
include htx

theorem mem_holders (keys : DTX → List Nat) :
    t ∈ {u | ∃ x, s.txs u = some x ∧ slotNo ∈ keys x} ↔ slotNo ∈ keys tx := by
  simp [htx]

theorem mem_readers : t ∈ (s.tupleLock slotNo).readers ↔ slotNo ∈ tx.readKeys :=
  mem_holders htx DTX.readKeys

theorem mem_writers : t ∈ (s.tupleLock slotNo).writers ↔ slotNo ∈ tx.writeKeys :=
  mem_holders htx DTX.writeKeys

theorem holders_kept (keys : DTX → List Nat) {holders : Set Nat}
    (h : holders = {u | ∃ x, s.txs u = some x ∧ slotNo ∈ keys x}) :
    holders = if slotNo ∈ keys tx then insert t holders else holders \ {t} := by
  rw [h]
  split
  · rename_i hmem
    exact (Set.insert_eq_of_mem ((mem_holders htx keys).2 hmem)).symm
  · rename_i hmem
    exact (Set.sdiff_singleton_eq_self fun h => hmem ((mem_holders htx keys).1 h)).symm

theorem hasAlone_iff :
    tx.HasAlone (s.page.slots slotNo).item slotNo ↔ TupleLock.Move.Free t (s.tupleLock slotNo) := by
  unfold DTX.HasAlone TupleLock.Move.Free
  rw [mem_readers htx, mem_writers htx]
  rfl

end

theorem holders_setTx (keys : DTX → List Nat) (i : Nat) :
    {u | ∃ x, (s.setTx t tx').txs u = some x ∧ i ∈ keys x} =
      if i ∈ keys tx' then insert t {u | ∃ x, s.txs u = some x ∧ i ∈ keys x}
      else {u | ∃ x, s.txs u = some x ∧ i ∈ keys x} \ {t} := by
  ext u
  by_cases hu : u = t
  · split <;> simp [setTx, *]
  · split <;> simp [setTx, hu]

theorem holders_same (keys : DTX → List Nat) (htx : s.txs t = some tx) {i : Nat}
    (hkeys : i ∈ keys tx' ↔ i ∈ keys tx) :
    {u | ∃ x, (s.setTx t tx').txs u = some x ∧ i ∈ keys x} =
      {u | ∃ x, s.txs u = some x ∧ i ∈ keys x} := by
  ext u
  by_cases hu : u = t
  · subst hu
    simp [setTx, htx, hkeys]
  · simp [setTx, update_of_ne hu]

variable {row : Tuple}

theorem tupleLock_next {l : TupleLock} (htx : s.txs t = some tx) (htxs : s₁.txs = s.txs)
    (hslots : s₁.page.slots = update s.page.slots slotNo row)
    (hread : ∀ i, i ≠ slotNo → (i ∈ tx'.readKeys ↔ i ∈ tx.readKeys))
    (hwrite : ∀ i, i ≠ slotNo → (i ∈ tx'.writeKeys ↔ i ∈ tx.writeKeys))
    (hword : l.word = row.item.lock) (htime : l.timeStamp = row.item.timeStamp)
    (hreaders : l.readers = if slotNo ∈ tx'.readKeys then insert t (s.tupleLock slotNo).readers
      else (s.tupleLock slotNo).readers \ {t})
    (hwriters : l.writers = if slotNo ∈ tx'.writeKeys then insert t (s.tupleLock slotNo).writers
      else (s.tupleLock slotNo).writers \ {t}) :
    (s₁.setTx t tx').tupleLock = update s.tupleLock slotNo l := by
  have htx₁ : s₁.txs t = some tx := by rw [htxs, htx]
  have hlock₁ : ∀ i, (s₁.tupleLock i).readers = (s.tupleLock i).readers ∧
      (s₁.tupleLock i).writers = (s.tupleLock i).writers := by
    intro i
    unfold tupleLock
    rw [htxs]
    exact ⟨rfl, rfl⟩
  funext i
  by_cases hi : i = slotNo
  · subst hi
    rw [update_self]
    refine TupleLock.ext ?_ ?_ ?_ ?_
    · show (s₁.page.slots i).item.lock = l.word
      rw [hslots, update_self, hword]
    · show (s₁.page.slots i).item.timeStamp = l.timeStamp
      rw [hslots, update_self, htime]
    · rw [hreaders, ← (hlock₁ i).1]
      exact holders_setTx DTX.readKeys i
    · rw [hwriters, ← (hlock₁ i).2]
      exact holders_setTx DTX.writeKeys i
  · rw [update_of_ne hi]
    have hrow : s₁.page.slots i = s.page.slots i := by rw [hslots, update_of_ne hi]
    refine TupleLock.ext ?_ ?_ ?_ ?_
    · exact congrArg (fun r : Tuple => r.item.lock) hrow
    · exact congrArg (fun r : Tuple => r.item.timeStamp) hrow
    · rw [← (hlock₁ i).1]
      exact holders_same DTX.readKeys htx₁ (hread i hi)
    · rw [← (hlock₁ i).2]
      exact holders_same DTX.writeKeys htx₁ (hwrite i hi)

theorem tupleLock_congr (htxs : s₁.txs = s.txs)
    (hrows : ∀ i, (s₁.page.slots i).item.lock = (s.page.slots i).item.lock ∧
      (s₁.page.slots i).item.timeStamp = (s.page.slots i).item.timeStamp) :
    s₁.tupleLock = s.tupleLock := by
  funext i
  unfold tupleLock
  rw [htxs, (hrows i).1, (hrows i).2]

theorem tupleLock_setRow (htxs : s₁.txs = s.txs)
    (hslots : s₁.page.slots = update s.page.slots slotNo row)
    (hlock : row.item.lock = (s.page.slots slotNo).item.lock)
    (htime : row.item.timeStamp = (s.page.slots slotNo).item.timeStamp) :
    s₁.tupleLock = s.tupleLock := by
  refine tupleLock_congr htxs fun i => ?_
  rw [hslots]
  by_cases hi : i = slotNo
  · subst hi
    rw [update_self]
    exact ⟨hlock, htime⟩
  · rw [update_of_ne hi]
    exact ⟨rfl, rfl⟩

theorem tupleLock_found :
    (s.setRow slotNo (s.getDataItem slotNo addr)).tupleLock = s.tupleLock :=
  tupleLock_setRow rfl rfl rfl rfl

theorem tupleLock_setTx (htx : s.txs t = some tx) (hread : tx'.readKeys = tx.readKeys)
    (hwrite : tx'.writeKeys = tx.writeKeys) : (s.setTx t tx').tupleLock = s.tupleLock := by
  funext i
  refine TupleLock.ext rfl rfl ?_ ?_
  · exact holders_same DTX.readKeys htx (by rw [hread])
  · exact holders_same DTX.writeKeys htx (by rw [hwrite])

/-- The step from `s` to `s'` moves the lock of one row, and the lock word can follow the move exactly
if `fine`. -/
def LockMove (s s' : State) (fine : Prop) : Prop :=
  ∃ (t slotNo : Nat) (m : TupleLock.Move), m.Enabled t (s.tupleLock slotNo) ∧
    (fine ↔ m.Fine t (s.tupleLock slotNo)) ∧
    s'.tupleLock = update s.tupleLock slotNo (m.apply t (s.tupleLock slotNo))

variable {fine : Prop}

theorem LockMove.stay (h : s'.tupleLock = s.tupleLock) (hfine : fine) : LockMove s s' fine := by
  refine ⟨0, 0, .stay, trivial, iff_of_true hfine trivial, ?_⟩
  rw [h]
  exact (update_eq_self 0 s.tupleLock).symm

theorem LockMove.keep (htx : s.txs t = some tx) (hlocks : s₁.tupleLock = s.tupleLock)
    (htxs : s₁.txs = s.txs) (hread : tx'.readKeys = tx.readKeys)
    (hwrite : tx'.writeKeys = tx.writeKeys) (hfine : fine) : LockMove s (s₁.setTx t tx') fine := by
  have htx₁ : s₁.txs t = some tx := by rw [htxs, htx]
  exact .stay ((tupleLock_setTx htx₁ hread hwrite).trans hlocks) hfine

/-- The transaction puts the row into `write_keys`; with `upgrade` it takes it out of
`read_keys`. -/
structure TakesKey (tx tx' : DTX) (slotNo : Nat) (upgrade : Bool) : Prop where
  readKeys : tx'.readKeys = if upgrade then tx.readKeys.filter (· ≠ slotNo) else tx.readKeys
  mem : slotNo ∈ tx'.writeKeys
  writeKeys : ∀ i, i ≠ slotNo → (i ∈ tx'.writeKeys ↔ i ∈ tx.writeKeys)

theorem takesKey_insert (upgrade : Bool) :
    TakesKey tx { tx with
      readKeys := if upgrade then tx.readKeys.filter (· ≠ slotNo) else tx.readKeys
      writeKeys := tx.writeKeys.insert slotNo } slotNo upgrade where
  readKeys := rfl
  mem := List.mem_insert_self
  writeKeys i hi := by simp [List.mem_insert_iff, hi]

theorem takesKey_self (hmem : slotNo ∈ tx.writeKeys) : TakesKey tx tx slotNo false :=
  ⟨rfl, hmem, fun _ _ => Iff.rfl⟩

variable {item : DataItem}

theorem writeLock_takesKey {conds : Bool} (h : writeLock tx item slotNo conds = .locked tx') :
    ∃ upgrade, TakesKey tx tx' slotNo upgrade ∧
      (upgrade = false → ¬ (item.lock = 1 ∧ slotNo ∈ tx.readKeys)) ∧
      tx.HasAlone item slotNo := by
  unfold writeLock at h
  split at h
  · split at h
    · rename_i hup
      split at h <;> cases h
      exact ⟨true, takesKey_insert true, nofun, .inr (.inl hup)⟩
    · rename_i hup
      split at h
      · cases h
      · split at h
        · cases h
        · rename_i hmem
          split at h <;> cases h
          have hmem : slotNo ∈ tx.writeKeys := Decidable.not_not.1 hmem
          exact ⟨false, takesKey_self hmem, fun _ => hup, .inr (.inr hmem)⟩
  · rename_i hfree
    have hfree : item.lock = UNLOCKED := Decidable.not_not.1 hfree
    split at h <;> cases h
    refine ⟨false, takesKey_insert false, fun _ hup => ?_, .inl hfree⟩
    rw [hfree] at hup
    exact absurd hup.1 (by decide)

/-- An insert does not see who has the slot: its `int` is 0 for the mark of a writer. -/
theorem insertLock_takesKey (h : insertLock tx item slotNo = .locked tx') :
    ∃ upgrade, TakesKey tx tx' slotNo upgrade ∧
      (upgrade = false → ¬ (item.lock = 1 ∧ slotNo ∈ tx.readKeys)) := by
  have hone : item.lock = 1 → lockAsInt item.lock = 1 := by
    intro h
    rw [h]
    decide
  unfold insertLock at h
  dsimp only at h
  split at h
  · split at h
    · cases h
      exact ⟨true, takesKey_insert true, nofun⟩
    · rename_i hup
      split at h
      · cases h
      · split at h
        · cases h
        · rename_i hmem
          split at h <;> cases h
          exact ⟨false, takesKey_self (Decidable.not_not.1 hmem),
            fun _ hread => hup ⟨hone hread.1, hread.2⟩⟩
  · rename_i hzero
    have hzero := Decidable.not_not.1 hzero
    cases h
    refine ⟨false, takesKey_insert false, fun _ hread => ?_⟩
    rw [hone hread.1] at hzero
    exact absurd hzero (by decide)

theorem unlockTuple_next {item' : DataItem}
    (h : unlockTupleWithHandoff item t none = .next item') :
    item.lock = EXCLUSIVE_LOCKED ∧ item.timeStamp = t ∧ item' = { item with lock := UNLOCKED } := by
  simp only [unlockTupleWithHandoff, bind_eq_next, cassert_eq_next, pure_def,
    next.injEq] at h
  obtain ⟨-, ⟨hlock, htime⟩, rfl⟩ := h
  exact ⟨hlock, htime, rfl⟩

theorem removeDeleted_next (hs : s.removeDeleted tab node slotNo row = .next s') :
    s'.txs = s.txs ∧ ∃ row', s'.page.slots = update s.page.slots slotNo row' ∧
      row'.item.timeStamp = row.item.timeStamp := by
  unfold removeDeleted at hs
  split at hs
  · obtain ⟨htxs, hslots⟩ := addLog_frame hs
    exact ⟨htxs, _, hslots, rfl⟩
  · cases hs
    exact ⟨rfl, _, rfl, rfl⟩

theorem undoWrite_tupleLock {write : WriteRecord}
    (hs : s.undoWrite tab node (s.getDataItem write.slotNo addr) write = .next s') :
    s'.tupleLock = s.tupleLock ∧ s'.txs = s.txs := by
  unfold undoWrite at hs
  split at hs
  · obtain ⟨htxs, hslots⟩ := addLog_frame hs
    exact ⟨tupleLock_setRow htxs hslots rfl rfl, htxs⟩
  · simp only [bind_eq_next, cassert_eq_next] at hs
    obtain ⟨-, -, hs⟩ := hs
    obtain ⟨htxs, hslots⟩ := addLog_frame hs
    exact ⟨tupleLock_setRow htxs hslots rfl rfl, htxs⟩
  · obtain ⟨htxs, hslots⟩ := addLog_frame hs
    exact ⟨tupleLock_setRow htxs hslots rfl rfl, htxs⟩

section

variable (htx : s.txs t = some tx)
include htx

theorem LockMove.write {upgrade : Bool} (htakes : TakesKey tx tx' slotNo upgrade)
    (hguard : upgrade = false → ¬ ((s.page.slots slotNo).item.lock = 1 ∧ slotNo ∈ tx.readKeys))
    (hfine : fine ↔ tx.HasAlone (s.page.slots slotNo).item slotNo) (htxs : s₁.txs = s.txs)
    (hslots : s₁.page.slots = update s.page.slots slotNo row)
    (hlock : row.item.lock = EXCLUSIVE_LOCKED) (htime : row.item.timeStamp = t) :
    LockMove s (s₁.setTx t tx') fine := by
  refine ⟨t, slotNo, .write upgrade, ?_, ?_, ?_⟩
  · intro hup ⟨hone, hmem⟩
    exact hguard hup ⟨hone, (mem_readers htx).1 hmem⟩
  · rw [hfine, hasAlone_iff htx]
    rfl
  · refine tupleLock_next htx htxs hslots ?_ htakes.writeKeys hlock.symm htime.symm ?_ ?_
    · intro i hi
      rw [htakes.readKeys]
      split <;> simp [hi]
    · rw [htakes.readKeys]
      cases upgrade with
      | true => simp [TupleLock.Move.apply]
      | false => exact holders_kept htx DTX.readKeys rfl
    · rw [if_pos htakes.mem]
      rfl

theorem unlockReadKey_next {newLock : UInt64 → UInt64} {key : UInt64 → Option UInt64}
    (hs : s.unlockReadKey tab t tx addr slotNo newLock key = .next s') :
    (t ∈ (s.tupleLock slotNo).readers ∧ (s.tupleLock slotNo).word ≠ EXCLUSIVE_LOCKED ∧
      (s.tupleLock slotNo).word ≠ UNLOCKED) ∧
    s'.tupleLock = update s.tupleLock slotNo
      { s.tupleLock slotNo with
        word := newLock (s.tupleLock slotNo).word
        readers := (s.tupleLock slotNo).readers \ {t} } := by
  simp only [unlockReadKey, bind_eq_next, await_eq_next, cassert_eq_next, pure_def,
    next.injEq] at hs
  obtain ⟨-, hmem, -, hguard, s₁, hlog, rfl⟩ := hs
  obtain ⟨htxs, hslots⟩ := addLog_frame hlog
  refine ⟨⟨(mem_readers htx).2 hmem, hguard⟩, ?_⟩
  refine tupleLock_next htx htxs hslots ?_ (fun _ _ => Iff.rfl) rfl rfl ?_ ?_
  · intro i hi
    simp [hi]
  · rw [if_neg (by simp)]
  · exact holders_kept htx DTX.writeKeys rfl

theorem writeRow_lockMove {conds : Bool} {wtype : WType} {userInsert : UInt8}
    {change : List UInt8 → List UInt8}
    (hs : s.writeRow tab t tx addr slotNo conds wtype userInsert change = .next s') :
    LockMove s s' True := by
  simp only [writeRow, bind_eq_next, await_eq_next] at hs
  obtain ⟨-, -, hs⟩ := hs
  split at hs
  · cases hs
    exact .stay tupleLock_found trivial
  · split at hs
    · cases hs
      exact .stay tupleLock_found trivial
    · cases hs
      exact .keep htx tupleLock_found rfl rfl rfl trivial
    · rename_i hlock
      simp only [bind_eq_next, pure_def, next.injEq] at hs
      obtain ⟨s₁, hlog, rfl⟩ := hs
      obtain ⟨htxs, hslots⟩ := addLog_frame hlog
      obtain ⟨upgrade, htakes, hguard, halone⟩ := writeLock_takesKey hlock
      exact .write htx ⟨htakes.readKeys, htakes.mem, htakes.writeKeys⟩ hguard
        (iff_of_true trivial halone) htxs hslots rfl rfl

theorem selectFrom_lockMove (hs : s.selectFrom tab t tx addr slotNo = .next s') :
    LockMove s s' (s.OpKeepsAccount tab tx (.selectFrom slotNo)) := by
  simp only [selectFrom, bind_eq_next, await_eq_next] at hs
  obtain ⟨-, -, hs⟩ := hs
  split at hs
  · rename_i hheld
    have hfine : s.OpKeepsAccount tab tx (.selectFrom slotNo) := by
      by_cases hmem : slotNo ∈ tx.readKeys
      · exact .inl hmem
      · refine .inr ?_
        have hexcl : (s.page.slots slotNo).item.lock = EXCLUSIVE_LOCKED :=
          Decidable.not_not.1 fun hne => hheld.2 ⟨hne, hmem⟩
        rw [hexcl]
        decide
    split at hs <;> cases hs
    · exact .keep htx tupleLock_found rfl rfl rfl hfine
    · exact .stay tupleLock_found hfine
  · rename_i hheld
    simp only [bind_eq_next, pure_def, next.injEq] at hs
    obtain ⟨s₁, hlog, rfl⟩ := hs
    obtain ⟨htxs, hslots⟩ := addLog_frame hlog
    -- either nobody has the row, or readers do and the transaction is none of them
    have hfree : (s.page.slots slotNo).item.lock = UNLOCKED ∨
        ((s.page.slots slotNo).item.lock ≠ EXCLUSIVE_LOCKED ∧ slotNo ∉ tx.readKeys) := by
      by_cases hzero : (s.page.slots slotNo).item.lock = UNLOCKED
      · exact .inl hzero
      · refine .inr (Decidable.not_not.1 fun hnot => hheld ⟨?_, hnot⟩)
        exact UInt64.lt_of_le_of_ne (UInt64.zero_le) (Ne.symm hzero)
    refine ⟨t, slotNo, .read, ⟨?_, ?_⟩, ?_, ?_⟩
    · rcases hfree with hzero | ⟨hne, -⟩
      · show (s.page.slots slotNo).item.lock ≠ _
        rw [hzero]
        decide
      · exact hne
    · rcases hfree with hzero | ⟨-, hmem⟩
      · exact .inl hzero
      · exact .inr fun h => hmem ((mem_readers htx).1 h)
    · rcases hfree with hzero | ⟨-, hmem⟩
      · refine iff_of_true (.inr ?_) ?_
        · rw [hzero]
          decide
        · show (s.page.slots slotNo).item.lock + 1 ≠ _
          rw [hzero]
          decide
      · exact or_iff_right hmem
    · refine tupleLock_next htx htxs hslots ?_ (fun _ _ => Iff.rfl) rfl rfl ?_ ?_
      · intro i hi
        simp [List.mem_insert_iff, hi]
      · rw [if_pos List.mem_insert_self]
        rfl
      · exact holders_kept htx DTX.writeKeys rfl

variable {value : List UInt8}

theorem insertNew_lockMove {primaryKey : UInt64}
    (hs : s.insertNew tab t tx primaryKey value = .next s') :
    LockMove s s' (s.OpKeepsAccount tab tx (.insertNew primaryKey value)) := by
  simp only [insertNew, bind_eq_next, await_eq_next] at hs
  obtain ⟨-, -, hs⟩ := hs
  split at hs
  · rename_i hfull
    cases hs
    refine .stay rfl fun i hi => ?_
    rw [hfull] at hi
    cases hi
  · rename_i slotNo hfree
    have hfine : s.OpKeepsAccount tab tx (.insertNew primaryKey value) ↔
        ((insertLock tx (s.page.slots slotNo).item slotNo).isLocked = true →
          tx.HasAlone (s.page.slots slotNo).item slotNo) := by
      constructor
      · intro h
        exact h slotNo hfree
      · intro h i hi
        obtain rfl : slotNo = i := Option.some.inj (hfree.symm.trans hi)
        exact h
    rw [hfine]
    split at hs
    · rename_i hlock
      cases hs
      refine .stay (tupleLock_congr rfl fun _ => ⟨rfl, rfl⟩) fun hlocked => ?_
      rw [show insertLock tx (s.page.slots slotNo).item slotNo = _ from hlock] at hlocked
      cases hlocked
    · rename_i hlock
      cases hs
      refine .keep htx (tupleLock_congr rfl fun _ => ⟨rfl, rfl⟩) rfl rfl rfl fun hlocked => ?_
      rw [show insertLock tx (s.page.slots slotNo).item slotNo = _ from hlock] at hlocked
      cases hlocked
    · rename_i tx' hlock
      simp only [bind_eq_next, pure_def, next.injEq] at hs
      obtain ⟨s₁, hlog, rfl⟩ := hs
      obtain ⟨htxs, hslots⟩ := addLog_frame hlog
      obtain ⟨upgrade, htakes, hguard⟩ := insertLock_takesKey hlock
      refine .write htx ⟨htakes.readKeys, htakes.mem, htakes.writeKeys⟩ hguard ?_ htxs hslots rfl
        rfl
      rw [show insertLock tx (s.page.slots slotNo).item slotNo = .locked tx' from hlock]
      exact ⟨fun h => h rfl, fun h _ => h⟩

theorem insertExisting_lockMove
    (hs : s.insertExisting tab t tx addr slotNo value = .next s') : LockMove s s' True := by
  simp only [insertExisting, bind_eq_next, await_eq_next] at hs
  obtain ⟨-, -, hs⟩ := hs
  split at hs
  · cases hs
    exact .stay (tupleLock_setTx htx rfl rfl) trivial
  · simp only [bind_eq_next, cassert_eq_next] at hs
    obtain ⟨-, -, hs⟩ := hs
    split at hs
    · obtain ⟨htxs, hslots⟩ := addLog_frame hs
      exact .stay (tupleLock_setRow htxs hslots rfl rfl) trivial
    · cases hs
      exact .keep htx tupleLock_found rfl rfl rfl trivial

theorem LockMove.unlock (hmem : slotNo ∈ tx.writeKeys)
    (hexcl : (s.page.slots slotNo).item.lock = EXCLUSIVE_LOCKED) (htxs : s₁.txs = s.txs)
    (hslots : s₁.page.slots = update s.page.slots slotNo row)
    (hlock : row.item.lock = UNLOCKED)
    (htime : row.item.timeStamp = (s.page.slots slotNo).item.timeStamp) :
    LockMove s (s₁.setTx t { tx with writeKeys := tx.writeKeys.filter (· ≠ slotNo) }) True := by
  refine ⟨t, slotNo, .unlock, ⟨(mem_writers htx).2 hmem, hexcl⟩, Iff.rfl, ?_⟩
  refine tupleLock_next htx htxs hslots (fun _ _ => Iff.rfl) ?_ hlock.symm htime.symm ?_ ?_
  · intro i hi
    simp [hi]
  · exact holders_kept htx DTX.readKeys rfl
  · rw [if_neg (by simp)]
    rfl

theorem commitWriteKey_lockMove
    (hs : s.commitWriteKey tab t tx addr slotNo none = .next s') : LockMove s s' True := by
  unfold commitWriteKey at hs
  split at hs
  · simp only [bind_eq_next, await_eq_next, cassert_eq_next, pure_def, next.injEq] at hs
    obtain ⟨-, hmem, -, hexcl, s₁, hremoved, item, hitem, s₂, hlog, rfl⟩ := hs
    obtain ⟨htxs₁, row', hslots₁, htime⟩ := removeDeleted_next hremoved
    obtain ⟨-, -, rfl⟩ := unlockTuple_next hitem
    obtain ⟨htxs, hslots⟩ := addLog_frame hlog
    have hslots : s₂.page.slots = update s₁.page.slots slotNo _ := hslots
    rw [hslots₁, update_idem] at hslots
    refine .unlock htx hmem hexcl (htxs.trans htxs₁) hslots rfl ?_
    rw [update_self, htime]
    rfl
  · cases hs

theorem abortWriteKey_lockMove
    (hs : s.abortWriteKey tab t tx addr slotNo none = .next s') : LockMove s s' True := by
  simp only [abortWriteKey, bind_eq_next, await_eq_next, pure_def, next.injEq] at hs
  obtain ⟨-, ⟨-, -, -, hmem⟩, item, hitem, s₁, hlog, rfl⟩ := hs
  obtain ⟨hexcl, -, rfl⟩ := unlockTuple_next hitem
  obtain ⟨htxs, hslots⟩ := addLog_frame hlog
  exact .unlock htx hmem hexcl htxs hslots rfl rfl

theorem abortUndo_lockMove (hs : s.abortUndo tab t tx addr = .next s') :
    LockMove s s' True := by
  simp only [abortUndo, bind_eq_next, await_eq_next] at hs
  obtain ⟨-, -, hs⟩ := hs
  split at hs
  · cases hs
  · simp only [bind_eq_next, cassert_eq_next, pure_def, next.injEq] at hs
    obtain ⟨-, -, -, -, s₁, hundo, rfl⟩ := hs
    obtain ⟨hlocks, htxs⟩ := undoWrite_tupleLock hundo
    exact .keep htx hlocks htxs rfl rfl trivial

theorem runOp_lockMove {op : Op} (hsql : op.IsSql)
    (hs : s.runOp tab t tx addr op = .next s') : LockMove s s' (s.OpKeepsAccount tab tx op) := by
  cases op with
  | txExe | setValue | txCommitSingle | txAbortWorkLoad => exact absurd hsql id
  | startCommit | startAbort =>
    simp only [runOp, bind_eq_next, await_eq_next, pure_def, next.injEq] at hs
    obtain ⟨-, -, rfl⟩ := hs
    exact .keep htx rfl rfl rfl rfl trivial
  | update | delete =>
    simp only [runOp, State.update, delete] at hs
    exact writeRow_lockMove htx hs
  | selectFrom slotNo =>
    exact selectFrom_lockMove htx hs
  | insertNew primaryKey value =>
    exact insertNew_lockMove htx hs
  | insertExisting slotNo value =>
    exact insertExisting_lockMove htx hs
  | commitWriteKey slotNo handoff =>
    obtain rfl : handoff = none := hsql
    exact commitWriteKey_lockMove htx hs
  | commitReadKey slotNo =>
    simp only [runOp, commitReadKey] at hs
    split at hs
    · simp only [bind_eq_next, await_eq_next] at hs
      obtain ⟨-, -, hs⟩ := hs
      obtain ⟨henabled, hlocks⟩ := unlockReadKey_next htx hs
      exact ⟨t, slotNo, .commitRead, henabled, Iff.rfl, hlocks⟩
    · cases hs
  | abortReadKey slotNo =>
    simp only [runOp, abortReadKey, bind_eq_next, await_eq_next] at hs
    obtain ⟨-, -, hs⟩ := hs
    obtain ⟨henabled, hlocks⟩ := unlockReadKey_next htx hs
    exact ⟨t, slotNo, .abortRead, henabled, Iff.rfl, hlocks⟩
  | abortUndo => exact abortUndo_lockMove htx hs
  | abortWriteKey slotNo handoff =>
    obtain rfl : handoff = none := hsql
    exact abortWriteKey_lockMove htx hs

end

/-- Each step of a SQL transaction moves one lock, and `KeepsAccount` says whether the lock word can
follow. -/
theorem step_lockMove {a : Action} (hsql : a.IsSql) (hs : s.step tab a = .next s') :
    LockMove s s' (s.KeepsAccount tab a) := by
  cases a with
  | txBegin t node =>
    simp only [step, bind_eq_next, await_eq_next, pure_def, next.injEq] at hs
    obtain ⟨-, hfresh, rfl⟩ := hs
    refine .stay ?_ trivial
    funext i
    refine TupleLock.ext rfl rfl ?_ ?_
    · refine (holders_setTx DTX.readKeys i).trans ?_
      simp [tupleLock, hfresh]
    · refine (holders_setTx DTX.writeKeys i).trans ?_
      simp [tupleLock, hfresh]
  | run t addr op =>
    cases htx : s.txs t with
    | none =>
      simp only [step, htx] at hs
      cases hs
    | some tx =>
      simp only [step, htx] at hs
      have hfine : s.KeepsAccount tab (.run t addr op) ↔ s.OpKeepsAccount tab tx op := by
        show (∀ x ∈ s.txs t, _) ↔ _
        simp [htx]
      rw [hfine]
      exact runOp_lockMove htx hsql hs

theorem LockMove.accounted_iff (h : LockMove s s' fine)
    (haccounted : ∀ i, (s.tupleLock i).Accounted) : (∀ i, (s'.tupleLock i).Accounted) ↔ fine := by
  obtain ⟨t, slotNo, m, henabled, hfine, hlocks⟩ := h
  rw [hfine, ← (haccounted slotNo).apply_iff henabled, hlocks]
  constructor
  · intro h
    have hslot := h slotNo
    rwa [update_self] at hslot
  · intro h i
    by_cases hi : i = slotNo
    · subst hi
      rwa [update_self]
    · rw [update_of_ne hi]
      exact haccounted i

theorem accounted_init {page : Page} {currentLLSN : Nat → Nat}
    (unlocked : ∀ i, (page.slots i).item.lock = UNLOCKED) (i : Nat) :
    ((init page currentLLSN).tupleLock i).Accounted := by
  have hword : ((init page currentLLSN).tupleLock i).word = UNLOCKED := unlocked i
  refine TupleLock.accounted_shared ?_ ?_ ?_
  · rw [hword]
    exact TupleLock.unlocked_lt
  · exact Set.eq_empty_of_forall_notMem fun _ ⟨_, htx, _⟩ => nomatch htx
  · have hempty : ((init page currentLLSN).tupleLock i).readers = ∅ :=
      Set.eq_empty_of_forall_notMem fun _ ⟨_, htx, _⟩ => nomatch htx
    rw [hempty, hword, Set.encard_empty]
    rfl

instance (op : Op) : Decidable (s.OpKeepsAccount tab tx op) :=
  match op with
  | .selectFrom _ => inferInstanceAs (Decidable (_ ∨ _))
  | .abortReadKey _ => inferInstanceAs (Decidable (_ = _))
  | .insertNew _ _ => Option.decidableForallMem _
  | .txExe _ _ _ | .setValue _ _ | .txCommitSingle _ _ | .txAbortWorkLoad _ _ | .startCommit _
  | .startAbort | .update _ _ _ | .delete _ _ | .insertExisting _ _ | .commitWriteKey _ _
  | .commitReadKey _ | .abortUndo | .abortWriteKey _ _ => .isTrue trivial

instance (a : Action) : Decidable (s.KeepsAccount tab a) :=
  match a with
  | .txBegin _ _ => .isTrue trivial
  | .run _ _ _ => Option.decidableForallMem _

/-- In every run of SQL transactions whose steps the lock words can follow, the lock word of each row
says who has the row, and commit and abort find the locks that they assert. The first step that a lock
word cannot follow ends this. -/
theorem sql_locks_accounted {page : Page} {currentLLSN : Nat → Nat}
    (unlocked : ∀ i, (page.slots i).item.lock = UNLOCKED)
    (run : Run (step tab) (fun s a => a.IsSql ∧ s.KeepsAccount tab a)
      (init page currentLLSN) s) :
    (∀ i, (s.tupleLock i).Accounted) ∧
    ∀ a s', a.IsSql → s.step tab a = .next s' →
      ((∀ i, (s'.tupleLock i).Accounted) ↔ s.KeepsAccount tab a) := by
  have haccounted : ∀ i, (s.tupleLock i).Accounted := by
    refine run.invariant (P := fun s => ∀ i, (s.tupleLock i).Accounted) (accounted_init unlocked) ?_
    intro s a s' h ⟨hsql, hkeeps⟩ hs
    exact ((step_lockMove hsql hs).accounted_iff h).2 hkeeps
  exact ⟨haccounted, fun a s' hsql hs => (step_lockMove hsql hs).accounted_iff haccounted⟩

/-- Two transactions read row 0, a third one updates it in vain and rolls back. -/
def twoReadersRun : List Action :=
  [.txBegin 5 0, .txBegin 6 0, .txBegin 7 0, .run 5 64 (.selectFrom 0), .run 6 64 (.selectFrom 0),
    .run 7 64 (.update 0 true [])]

theorem sql_locks_accounted_two_readers :
    ∃ s, Run (step (exampleTable true))
        (fun s a => a.IsSql ∧ s.KeepsAccount (exampleTable true) a)
        (init examplePage fun _ => 0) s ∧
      (s.page.slots 0).item.lock = 2 ∧ (s.tupleLock 0).Accounted := by
  obtain ⟨s, run, hs⟩ := Run.of_reaches (step (exampleTable true))
    (fun s a => a.IsSql ∧ s.KeepsAccount (exampleTable true) a) twoReadersRun
    (init examplePage fun _ => 0) (fun s => decide ((s.page.slots 0).item.lock = 2))
    (by decide +kernel)
  exact ⟨s, run, of_decide_eq_true hs, (sql_locks_accounted (fun _ => rfl) run).1 0⟩

/-- Does the step stop the process? -/
def stops (tab : Table) (s : State) (a : Action) : Bool :=
  match s.step tab a with
  | .abort => true
  | _ => false

theorem stops_spec {a : Action} (h : stops tab s a = true) : s.step tab a = .abort := by
  unfold stops at h
  split at h
  · assumption
  · cases h

/-- Two ways in which a lock word goes wrong. Two transactions read a row and one of them aborts: the
lock is gone, and the commit of the other one stops the process. A transaction that aborts has taken
its inserted row off the page and still has the slot locked: another transaction inserts into the
slot, both have it in `write_keys`, and the abort stops the process. -/
theorem sql_locks_unaccounted :
    (∃ s, Run (step (exampleTable true)) (fun _ a => a.IsSql)
        (init examplePage fun _ => 0) s ∧
      (s.page.slots 0).item.lock = UNLOCKED ∧ (s.txs 6).map DTX.readKeys = some [0] ∧
      s.step (exampleTable true) (.run 6 64 (.commitReadKey 0)) = .abort) ∧
    ∃ s, Run (step (exampleTable true)) (fun _ a => a.IsSql)
        (init examplePage fun _ => 0) s ∧
      (s.txs 5).map DTX.writeKeys = some [1] ∧ (s.txs 6).map DTX.writeKeys = some [1] ∧
      s.step (exampleTable true) (.run 5 64 (.abortWriteKey 1 none)) = .abort := by
  constructor
  · obtain ⟨s, run, hs⟩ := Run.of_reaches (step (exampleTable true)) (fun _ a => a.IsSql)
      [.txBegin 5 0, .txBegin 6 0, .run 5 64 (.selectFrom 0), .run 6 64 (.selectFrom 0),
        .run 5 0 .startAbort, .run 5 64 (.abortReadKey 0), .run 6 0 (.startCommit 8)]
      (init examplePage fun _ => 0)
      (fun s => decide ((s.page.slots 0).item.lock = UNLOCKED) &&
        decide ((s.txs 6).map DTX.readKeys = some [0]) &&
        stops (exampleTable true) s (.run 6 64 (.commitReadKey 0))) (by decide +kernel)
    simp only [Bool.and_eq_true, decide_eq_true_eq] at hs
    exact ⟨s, run, hs.1.1, hs.1.2, stops_spec hs.2⟩
  · obtain ⟨s, run, hs⟩ := Run.of_reaches (step (exampleTable true)) (fun _ a => a.IsSql)
      [.txBegin 5 0, .txBegin 6 0, .run 5 64 (.insertNew 3 [4]), .run 5 0 .startAbort,
        .run 5 64 .abortUndo, .run 6 64 (.insertNew 3 [7])]
      (init examplePage fun _ => 0)
      (fun s => decide ((s.txs 5).map DTX.writeKeys = some [1]) &&
        decide ((s.txs 6).map DTX.writeKeys = some [1]) &&
        stops (exampleTable true) s (.run 5 64 (.abortWriteKey 1 none))) (by decide +kernel)
    simp only [Bool.and_eq_true, decide_eq_true_eq] at hs
    exact ⟨s, run, hs.1.1, hs.1.2, stops_spec hs.2⟩

end Dtx
