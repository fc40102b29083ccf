import HybridCloud.Sql.Serial
import HybridCloud.Dtx.Proofs.SqlSteps

/-!
# Steps of a transaction that is alone

While a transaction is the only active one, the B-link trees find the visible rows, a row is locked
only if the transaction has it, and the write records lead back to the rows that were there at the
start (`Active`).
-/

namespace Sql

open Outcome Storage Dtx KeyedHeap Function

variable {site : Site} {db db' : Database} {tx tx' : Transaction} {r : RowId}

variable {keys : List RowId} {i p t : Nat}

theorem mem_slotsOn : i ∈ slotsOn keys t p ↔ (⟨t, ⟨p, i⟩⟩ : RowId) ∈ keys := by
  unfold slotsOn
  rw [List.mem_filterMap]
  constructor
  · rintro ⟨⟨t', ⟨p', i'⟩⟩, hmem, hi⟩
    split at hi
    · rename_i heq
      obtain ⟨rfl, rfl⟩ := heq
      cases hi
      exact hmem
    · cases hi
  · intro hmem
    exact ⟨_, hmem, if_pos ⟨rfl, rfl⟩⟩

theorem mem_replaceOn {slots : List Nat} :
    r ∈ replaceOn keys t p slots ↔
      if r.table = t ∧ r.rid.pageNo = p then r.rid.slotNo ∈ slots else r ∈ keys := by
  obtain ⟨t', ⟨p', i⟩⟩ := r
  unfold replaceOn
  rw [List.mem_append, List.mem_filter, List.mem_map]
  split
  · rename_i heq
    obtain ⟨rfl, rfl⟩ := heq
    simp
  · rename_i hne
    constructor
    · rintro (⟨hmem, -⟩ | ⟨j, -, hj⟩)
      · exact hmem
      · cases hj
        exact absurd ⟨rfl, rfl⟩ hne
    · intro hmem
      exact .inl ⟨hmem, decide_eq_true hne⟩

/-- The fields of a row. -/
def Database.state (db : Database) (r : RowId) : RowState := rowState (db.row r)

/-- A row gets a new state and a new bit. -/
structure Wrote (db db' : Database) (r : RowId) (x : RowState) (bit : Bool) : Prop where
  states : db'.state = update db.state r x
  bits : db'.used = update db.used r bit
  index : db'.index = db.index
  numPages : db'.numPages = db.numPages

/-- The transaction after a step on a page. -/
def Transaction.rejoin (tx : Transaction) (t p : Nat) (part : DTX) : Transaction :=
  { tx with
    readKeys := replaceOn tx.readKeys t p part.readKeys
    writeKeys := replaceOn tx.writeKeys t p part.writeKeys
    writeSet := part.writeSet.map (fun w => (t, p, w)) ++ tx.writeSet
    aborting := tx.aborting || part.phase == .aborting }


theorem update_pages {β : Type} (f : Page → Nat → β) {pages : Nat → Nat → Page} {page : Page}
    {x : β} (h : f page = update (f (pages t p)) i x) :
    (fun r : RowId => f (update pages t (update (pages t) p page) r.table r.rid.pageNo)
      r.rid.slotNo) =
    update (fun r : RowId => f (pages r.table r.rid.pageNo) r.rid.slotNo) ⟨t, ⟨p, i⟩⟩ x := by
  funext ⟨t', ⟨p', i'⟩⟩
  by_cases ht : t' = t
  · subst ht
    rw [update_self]
    by_cases hp : p' = p
    · subst hp
      rw [update_self, h]
      by_cases hi : i' = i
      · subst hi
        rw [update_self, update_self]
      · rw [update_of_ne hi, update_of_ne (by simp [hi])]
    · rw [update_of_ne hp, update_of_ne (by simp [hp])]
  · rw [update_of_ne ht, update_of_ne (by simp [ht])]

variable {x : RowState} {bit : Bool} {writes : List WriteRecord} {part : DTX} {phase : Phase}

theorem stepOn_next (tx : Transaction) (op : Op) {s : State}
    (hop : (db.onPage t p tx.startTs (tx.onPage site t p phase writes)).runOp (site.tab t p)
      tx.startTs (tx.onPage site t p phase writes) (site.addr t p) op = .next s)
    (hstep : PageStep (db.onPage t p tx.startTs (tx.onPage site t p phase writes))
      s tx.startTs i x bit part) :
    ∃ db', db.stepOn site tx t p phase writes op = .next (db', tx.rejoin t p part) ∧
      Wrote db db' ⟨t, ⟨p, i⟩⟩ x bit := by
  refine ⟨{ db.setPage t p s.page with currentLLSN := s.currentLLSN }, ?_, ?_, ?_, rfl, rfl⟩
  · unfold Database.stepOn
    simp only [hop, next_bind, hstep.tx]
    rfl
  · exact update_pages (fun page i => rowState (page.slots i)) hstep.rows
  · exact update_pages Page.bitmap hstep.bits

/-- The lock of a row: unlocked, or the transaction has it. -/
def Transaction.Alone (tx : Transaction) (lock : UInt64) (r : RowId) : Prop :=
  (lock = UNLOCKED ∧ r ∉ tx.readKeys ∧ r ∉ tx.writeKeys) ∨
  (lock = 1 ∧ r ∈ tx.readKeys ∧ r ∉ tx.writeKeys) ∨
  (lock = EXCLUSIVE_LOCKED ∧ r ∉ tx.readKeys ∧ r ∈ tx.writeKeys)

/-- A write record, as what it means for the rows. -/
def toWrite (w : Nat × Nat × WriteRecord) : Write RowId Key (List UInt8) :=
  let r : RowId := ⟨w.1, ⟨w.2.1, w.2.2.slotNo⟩⟩
  match w.2.2.wtype with
  | .insertTuple => .insert r (w.1, w.2.2.key)
  | .updateTuple => .update r (w.1, w.2.2.key) w.2.2.value
  | .deleteTuple => .delete r (w.1, w.2.2.key)

/-- The rows lie within the pages. -/
structure Layout (site : Site) (db : Database) : Prop where
  free : ∀ r, db.used r = false → (db.state r).valid = 0
  valid : ∀ r, (db.state r).valid = 0 ∨ (db.state r).valid = 1
  valueSize : ∀ r, (db.state r).valid = 1 → (db.state r).valueSize = (site.tabs r.table).valueSize
  length : ∀ r, (db.state r).value.length = (site.tabs r.table).valueSize
  bounds : ∀ r, db.used r = true → r.rid.pageNo < db.numPages r.table ∧
    r.rid.slotNo < (site.tabs r.table).fileHdr.numRecordsPerPage

/-- The locks are those of the transaction. -/
structure Locked (site : Site) (db : Database) (tx : Transaction) : Prop where
  alone : ∀ r, tx.Alone (db.state r).lock r
  time : ∀ r ∈ tx.writeKeys, (db.state r).timeStamp = tx.startTs
  size : ∀ r ∈ tx.writeKeys, (db.state r).valueSize = (site.tabs r.table).valueSize

/-- The database while a transaction executes its statements. -/
structure Active (site : Site) (heap₀ : RowId → Option (Key × List UInt8)) (db : Database)
    (tx : Transaction) : Prop where
  indexed : Indexed db.find db.heap
  layout : Layout site db
  locked : Locked site db tx
  live : ∀ r, r ∈ tx.readKeys ∨ r ∈ tx.writeKeys → db.used r = true ∧ (db.state r).valid = 1
  undoes : UndoesTo heap₀ (tx.writeSet.map toWrite) db.heap
  writes : ∀ w ∈ tx.writeSet, (⟨w.1, ⟨w.2.1, w.2.2.slotNo⟩⟩ : RowId) ∈ tx.writeKeys ∧
    (w.2.2.wtype = .updateTuple → w.2.2.value.length = (site.tabs w.1).valueSize)

theorem heap_eq_some {x : Key × List UInt8} : db.heap r = some x ↔
    (db.used r = true ∧ (db.state r).valid = 1) ∧
      x = ((r.table, (db.state r).key), (db.state r).value) := by
  unfold Database.heap
  split
  · rename_i hlive
    rw [Option.some.injEq, eq_comm]
    exact (and_iff_right hlive).symm
  · rename_i hlive
    constructor
    · nofun
    · rintro ⟨h, -⟩
      exact absurd h hlive

theorem heap_of_live (hlive : db.used r = true ∧ (db.state r).valid = 1) :
    db.heap r = some ((r.table, (db.state r).key), (db.state r).value) :=
  heap_eq_some.2 ⟨hlive, rfl⟩

theorem Wrote.heap (h : Wrote db db' r x bit) :
    db'.heap = update db.heap r
      (if bit = true ∧ x.valid = 1 then some ((r.table, x.key), x.value) else none) := by
  funext q
  show (if db'.used q = true ∧ (db'.state q).valid = 1 then
    some ((q.table, (db'.state q).key), (db'.state q).value) else none) = _
  rw [h.states, h.bits]
  by_cases hq : q = r
  · subst hq
    rw [update_self, update_self, update_self]
  · rw [update_of_ne hq, update_of_ne hq, update_of_ne hq]
    rfl

theorem Wrote.find (h : Wrote db db' r x bit) : db'.find = db.find := by
  funext k
  show (db'.index _ _).map _ = _
  rw [h.index]
  rfl

theorem Wrote.state_self (h : Wrote db db' r x bit) : db'.state r = x := by
  rw [h.states, update_self]

variable {q : RowId}

theorem Wrote.state_of_ne (h : Wrote db db' r x bit) (hq : q ≠ r) : db'.state q = db.state q := by
  rw [h.states, update_of_ne hq]

theorem Wrote.used_self (h : Wrote db db' r x bit) : db'.used r = bit := by
  rw [h.bits, update_self]

theorem Wrote.used_of_ne (h : Wrote db db' r x bit) (hq : q ≠ r) : db'.used q = db.used q := by
  rw [h.bits, update_of_ne hq]

theorem Layout.wrote (h : Layout site db) (hw : Wrote db db' r x bit)
    (hfree : bit = false → x.valid = 0) (hvalid : x.valid = 0 ∨ x.valid = 1)
    (hsize : x.valid = 1 → x.valueSize = (site.tabs r.table).valueSize)
    (hlength : x.value.length = (site.tabs r.table).valueSize)
    (hbounds : bit = true → r.rid.pageNo < db.numPages r.table ∧
      r.rid.slotNo < (site.tabs r.table).fileHdr.numRecordsPerPage) :
    Layout site db' where
  free q hq := by
    by_cases hqr : q = r
    · subst hqr
      rw [hw.state_self]
      exact hfree (hw.used_self ▸ hq)
    · rw [hw.state_of_ne hqr]
      exact h.free q (hw.used_of_ne hqr ▸ hq)
  valid q := by
    by_cases hqr : q = r
    · subst hqr
      rw [hw.state_self]
      exact hvalid
    · rw [hw.state_of_ne hqr]
      exact h.valid q
  valueSize q hq := by
    by_cases hqr : q = r
    · subst hqr
      rw [hw.state_self] at hq ⊢
      exact hsize hq
    · rw [hw.state_of_ne hqr] at hq ⊢
      exact h.valueSize q hq
  length q := by
    by_cases hqr : q = r
    · subst hqr
      rw [hw.state_self]
      exact hlength
    · rw [hw.state_of_ne hqr]
      exact h.length q
  bounds q hq := by
    rw [hw.numPages]
    by_cases hqr : q = r
    · subst hqr
      exact hbounds (hw.used_self ▸ hq)
    · exact h.bounds q (hw.used_of_ne hqr ▸ hq)

/-! The B-link trees have no part in the layout and in the locks. -/

theorem Layout.withIndex (h : Layout site db) (index : Nat → UInt64 → Option Rid) :
    Layout site { db with index := index } :=
  ⟨h.free, h.valid, h.valueSize, h.length, h.bounds⟩

theorem Locked.withIndex (h : Locked site db tx) (index : Nat → UInt64 → Option Rid) :
    Locked site { db with index := index } tx :=
  ⟨h.alone, h.time, h.size⟩

theorem alone_onPage {lock : UInt64} :
    (tx.onPage site t p phase writes).Alone lock i ↔ tx.Alone lock ⟨t, ⟨p, i⟩⟩ := by
  unfold DTX.Alone Transaction.Alone
  rw [show (tx.onPage site t p phase writes).readKeys = slotsOn tx.readKeys t p from rfl,
    show (tx.onPage site t p phase writes).writeKeys = slotsOn tx.writeKeys t p from rfl,
    mem_slotsOn, mem_slotsOn]

theorem onPage_txs {startTs : Nat} : (db.onPage t p startTs part).txs startTs = some part := by
  simp [Database.onPage]

theorem recordsFit (site : Site) (t p : Nat) : (site.tab t p).RecordsFit := site.fits t

theorem mem_replaceOn_slotsOn {slots : List Nat} {P : RowId → Prop}
    (hslots : ∀ i, i ∈ slots ↔ P ⟨t, ⟨p, i⟩⟩)
    (hother : ¬ (r.table = t ∧ r.rid.pageNo = p) → (P r ↔ r ∈ keys)) :
    r ∈ replaceOn keys t p slots ↔ P r := by
  rw [mem_replaceOn]
  split
  · rename_i heq
    obtain ⟨t', ⟨p', i⟩⟩ := r
    obtain ⟨rfl, rfl⟩ := heq
    exact hslots i
  · rename_i hne
    exact (hother hne).symm

/-- The transaction has become the writer of the row. -/
structure Transaction.Takes (tx tx' : Transaction) (r : RowId) : Prop where
  mem_writeKeys : ∀ q, q ∈ tx'.writeKeys ↔ q = r ∨ q ∈ tx.writeKeys
  mem_readKeys : ∀ q, q ∈ tx'.readKeys ↔ q ≠ r ∧ q ∈ tx.readKeys
  startTs : tx'.startTs = tx.startTs

theorem takes_rejoin (h : (tx.onPage site t p phase writes).Takes part i) :
    tx.Takes (tx.rejoin t p part) ⟨t, ⟨p, i⟩⟩ where
  mem_writeKeys q := by
    refine mem_replaceOn_slotsOn (P := fun q => q = ⟨t, ⟨p, i⟩⟩ ∨ q ∈ tx.writeKeys) (fun j => ?_)
      (fun hne => ?_)
    · rw [h.mem_writeKeys j]
      simp only [RowId.mk.injEq, Rid.mk.injEq, true_and]
      exact or_congr_right mem_slotsOn
    · refine or_iff_right ?_
      rintro rfl
      exact hne ⟨rfl, rfl⟩
  mem_readKeys q := by
    refine mem_replaceOn_slotsOn (P := fun q => q ≠ ⟨t, ⟨p, i⟩⟩ ∧ q ∈ tx.readKeys) (fun j => ?_)
      (fun hne => ?_)
    · rw [h.mem_readKeys j]
      simp only [ne_eq, RowId.mk.injEq, Rid.mk.injEq, true_and]
      exact and_congr_right fun _ => mem_slotsOn
    · refine and_iff_right ?_
      rintro rfl
      exact hne ⟨rfl, rfl⟩
  startTs := rfl

theorem mem_rejoin_same : r ∈ replaceOn keys t p (slotsOn keys t p) ↔ r ∈ keys :=
  mem_replaceOn_slotsOn (P := (· ∈ keys)) (fun _ => mem_slotsOn) fun _ => Iff.rfl

theorem Transaction.Takes.held_of_ne (h : tx.Takes tx' r) (hq : q ≠ r)
    (hheld : q ∈ tx'.readKeys ∨ q ∈ tx'.writeKeys) : q ∈ tx.readKeys ∨ q ∈ tx.writeKeys := by
  rw [h.mem_readKeys, h.mem_writeKeys] at hheld
  rcases hheld with ⟨-, hread⟩ | heq | hwrite
  · exact .inl hread
  · exact absurd heq hq
  · exact .inr hwrite

/-- The transaction has gone on with the same rows. -/
structure Transaction.Same (tx tx' : Transaction) : Prop where
  mem_writeKeys : ∀ q, q ∈ tx'.writeKeys ↔ q ∈ tx.writeKeys
  mem_readKeys : ∀ q, q ∈ tx'.readKeys ↔ q ∈ tx.readKeys
  startTs : tx'.startTs = tx.startTs
  writeSet : tx'.writeSet = tx.writeSet

theorem same_rejoin (hread : part.readKeys = slotsOn tx.readKeys t p)
    (hwrite : part.writeKeys = slotsOn tx.writeKeys t p) (hset : part.writeSet = []) :
    tx.Same (tx.rejoin t p part) where
  mem_writeKeys q := by
    show q ∈ replaceOn _ _ _ part.writeKeys ↔ _
    rw [hwrite]
    exact mem_rejoin_same
  mem_readKeys q := by
    show q ∈ replaceOn _ _ _ part.readKeys ↔ _
    rw [hread]
    exact mem_rejoin_same
  startTs := rfl
  writeSet := by
    show part.writeSet.map _ ++ _ = _
    rw [hset]
    rfl

theorem Transaction.Same.alone (h : tx.Same tx') {lock : UInt64} :
    tx'.Alone lock r ↔ tx.Alone lock r := by
  unfold Transaction.Alone
  rw [h.mem_readKeys, h.mem_writeKeys]

theorem view_congr (hstate : db'.state = db.state) (hused : db'.used = db.used)
    (hkeys : ∀ q, q ∈ tx'.writeKeys ↔ q ∈ tx.writeKeys) : db'.view tx' = db.view tx := by
  funext q
  show (if q ∈ tx'.writeKeys ∧ (db'.state q).userInsert = 1 then none else
    if db'.used q = true ∧ (db'.state q).valid = 1 then
      some ((q.table, (db'.state q).key), (db'.state q).value) else none) = _
  rw [hstate, hused]
  simp only [hkeys]
  rfl

theorem Wrote.unchanged (h : Wrote db db' r (db.state r) (db.used r)) :
    db'.state = db.state ∧ db'.used = db.used ∧ db'.heap = db.heap := by
  have hstate : db'.state = db.state := h.states.trans (update_eq_self r db.state)
  have hused : db'.used = db.used := h.bits.trans (update_eq_self r db.used)
  refine ⟨hstate, hused, ?_⟩
  funext q
  show (if db'.used q = true ∧ (db'.state q).valid = 1 then
    some ((q.table, (db'.state q).key), (db'.state q).value) else none) = _
  rw [hstate, hused]
  rfl

variable {heap₀ : RowId → Option (Key × List UInt8)}

theorem Locked.rewrites (h : Locked site db tx) (hw : Wrote db db' r x bit) (hsame : tx.Same tx')
    (hlock : x.lock = (db.state r).lock) (htime : x.timeStamp = (db.state r).timeStamp)
    (hsize : x.valueSize = (db.state r).valueSize) : Locked site db' tx' := by
  have hfields : ∀ q, (db'.state q).lock = (db.state q).lock ∧
      (db'.state q).timeStamp = (db.state q).timeStamp ∧
      (db'.state q).valueSize = (db.state q).valueSize := by
    intro q
    by_cases hq : q = r
    · subst hq
      rw [hw.state_self]
      exact ⟨hlock, htime, hsize⟩
    · rw [hw.state_of_ne hq]
      exact ⟨rfl, rfl, rfl⟩
  constructor
  · intro q
    rw [(hfields q).1, hsame.alone]
    exact h.alone q
  · intro q hq
    rw [(hfields q).2.1, hsame.startTs]
    exact h.time q ((hsame.mem_writeKeys q).1 hq)
  · intro q hq
    rw [(hfields q).2.2]
    exact h.size q ((hsame.mem_writeKeys q).1 hq)

theorem Active.unchanged (h : Active site heap₀ db tx)
    (hw : Wrote db db' r (db.state r) (db.used r)) (hsame : tx.Same tx') :
    Active site heap₀ db' tx' := by
  obtain ⟨hstate, hused, hheap⟩ := hw.unchanged
  constructor
  · rw [hw.find, hheap]
    exact h.indexed
  · exact h.layout.wrote hw (h.layout.free r) (h.layout.valid r) (h.layout.valueSize r)
      (h.layout.length r) (h.layout.bounds r)
  · exact h.locked.rewrites hw hsame rfl rfl rfl
  · intro q hq
    rw [hsame.mem_readKeys, hsame.mem_writeKeys] at hq
    rw [hstate, hused]
    exact h.live q hq
  · rw [hsame.writeSet, hheap]
    exact h.undoes
  · intro w hw
    have hw : w ∈ tx.writeSet := hsame.writeSet ▸ hw
    exact ⟨(hsame.mem_writeKeys _).2 (h.writes w hw).1, (h.writes w hw).2⟩

theorem Locked.takes (h : Locked site db tx) (hw : Wrote db db' r x bit) (htakes : tx.Takes tx' r)
    (hlock : x.lock = EXCLUSIVE_LOCKED) (htime : x.timeStamp = tx.startTs)
    (hsize : x.valueSize = (site.tabs r.table).valueSize) : Locked site db' tx' := by
  constructor
  · intro q
    unfold Transaction.Alone
    rw [htakes.mem_readKeys, htakes.mem_writeKeys]
    by_cases hq : q = r
    · subst hq
      rw [hw.state_self]
      exact .inr (.inr ⟨hlock, fun h => h.1 rfl, .inl rfl⟩)
    · rw [hw.state_of_ne hq]
      simpa [hq, Transaction.Alone] using h.alone q
  · intro q hq
    rw [htakes.startTs]
    by_cases hqr : q = r
    · subst hqr
      rw [hw.state_self, htime]
    · rw [hw.state_of_ne hqr]
      exact h.time q (((htakes.mem_writeKeys q).1 hq).resolve_left hqr)
  · intro q hq
    by_cases hqr : q = r
    · subst hqr
      rw [hw.state_self, hsize]
    · rw [hw.state_of_ne hqr]
      exact h.size q (((htakes.mem_writeKeys q).1 hq).resolve_left hqr)

theorem view_takes (hw : Wrote db db' r x bit) (htakes : tx.Takes tx' r) :
    db'.view tx' = update (db.view tx) r
      (if x.userInsert = 1 then none else
        if bit = true ∧ x.valid = 1 then some ((r.table, x.key), x.value) else none) := by
  funext q
  show (if q ∈ tx'.writeKeys ∧ (db'.state q).userInsert = 1 then none else db'.heap q) = _
  simp only [hw.heap, htakes.mem_writeKeys]
  by_cases hq : q = r
  · subst hq
    rw [update_self, update_self, hw.state_self]
    simp
  · rw [update_of_ne hq, update_of_ne hq, hw.state_of_ne hq]
    simp only [hq, false_or]
    rfl

theorem Active.takes (h : Active site heap₀ db tx) (write : WriteRecord)
    (hw : Wrote db db' r x (db.used r)) (htakes : tx.Takes tx' r)
    (hlive : db.used r = true ∧ (db.state r).valid = 1) (hlock : x.lock = EXCLUSIVE_LOCKED)
    (htime : x.timeStamp = tx.startTs) (hvalid : x.valid = 1)
    (hsize : x.valueSize = (site.tabs r.table).valueSize) (hkey : x.key = (db.state r).key)
    (hlength : x.value.length = (site.tabs r.table).valueSize)
    (hset : tx'.writeSet = (r.table, r.rid.pageNo, write) :: tx.writeSet)
    (hslot : write.slotNo = r.rid.slotNo) (hwkey : write.key = (db.state r).key)
    (hwrite : (write.wtype = .updateTuple ∧ write.value = (db.state r).value) ∨
      (write.wtype = .deleteTuple ∧ x.value = (db.state r).value)) :
    Active site heap₀ db' tx' := by
  have hheap : db'.heap = update db.heap r (some ((r.table, (db.state r).key), x.value)) := by
    rw [hw.heap, if_pos ⟨hlive.1, hvalid⟩, hkey]
  have hrow := heap_of_live hlive
  have hid : (⟨r.table, ⟨r.rid.pageNo, write.slotNo⟩⟩ : RowId) = r := by rw [hslot]
  refine ⟨?_, ?_, h.locked.takes hw htakes hlock htime hsize, ?_, ?_, ?_⟩
  · rw [hw.find, hheap]
    exact h.indexed.set hrow x.value
  · refine h.layout.wrote hw ?_ (.inr hvalid) (fun _ => hsize) hlength (h.layout.bounds r)
    intro hunused
    rw [hlive.1] at hunused
    cases hunused
  · intro q hq
    by_cases hqr : q = r
    · subst hqr
      rw [hw.used_self, hw.state_self]
      exact ⟨hlive.1, hvalid⟩
    · rw [hw.used_of_ne hqr, hw.state_of_ne hqr]
      exact h.live q (htakes.held_of_ne hqr hq)
  · rw [hset, List.map_cons, hheap]
    rcases hwrite with ⟨hwtype, hvalue⟩ | ⟨hwtype, hvalue⟩
    · have hw : toWrite (r.table, r.rid.pageNo, write) =
          .update r (r.table, (db.state r).key) (db.state r).value := by
        unfold toWrite
        simp only [hwtype, hid, hwkey, hvalue]
      rw [hw]
      refine ⟨⟨x.value, update_self ..⟩, ?_⟩
      show UndoesTo heap₀ _ (update (update _ r _) r _)
      rw [update_idem, ← hrow, update_eq_self]
      exact h.undoes
    · have hw : toWrite (r.table, r.rid.pageNo, write) = .delete r (r.table, (db.state r).key) := by
        unfold toWrite
        simp only [hwtype, hid, hwkey]
      rw [hw]
      refine ⟨⟨x.value, update_self ..⟩, ?_⟩
      rw [hvalue, ← hrow, update_eq_self]
      exact h.undoes
  · intro w hmem
    rw [hset] at hmem
    rcases List.mem_cons.1 hmem with rfl | hmem
    · refine ⟨(htakes.mem_writeKeys _).2 (.inl hid), fun hwtype => ?_⟩
      rcases hwrite with ⟨-, hvalue⟩ | ⟨hwtype', -⟩
      · rw [hvalue]
        exact h.layout.length r
      · exact absurd (hwtype.symm.trans hwtype') (by decide)
    · exact ⟨(htakes.mem_writeKeys _).2 (.inr (h.writes w hmem).1), (h.writes w hmem).2⟩

theorem view_eq_none_iff (h : Layout site db) :
    db.view tx r = none ↔
      (db.state r).valid = 0 ∨ (r ∈ tx.writeKeys ∧ (db.state r).userInsert = 1) := by
  show (if r ∈ tx.writeKeys ∧ (db.state r).userInsert = 1 then none else
    if db.used r = true ∧ (db.state r).valid = 1 then _ else none) = none ↔ _
  split
  · rename_i hdeleted
    exact iff_of_true rfl (.inr hdeleted)
  · rename_i hdeleted
    rw [or_iff_left hdeleted]
    split
    · rename_i hlive
      refine iff_of_false nofun ?_
      rw [hlive.2]
      decide
    · rename_i hlive
      refine iff_of_true rfl ((h.valid r).resolve_right fun hvalid => hlive ⟨?_, hvalid⟩)
      cases hused : db.used r with
      | true => rfl
      | false =>
        rw [h.free r hused] at hvalid
        exact absurd hvalid (by decide)

theorem Layout.live (h : Layout site db) (hvalid : ¬ (db.state r).valid = 0) :
    db.used r = true ∧ (db.state r).valid = 1 := by
  refine ⟨?_, (h.valid r).resolve_left hvalid⟩
  cases hused : db.used r with
  | true => rfl
  | false => exact absurd (h.free r hused) hvalid

/-- An update or delete of a row by key. -/
theorem Active.writeRow (h : Active site heap₀ db tx) (op : Op) (conds : Bool) (wtype : WType)
    (userInsert : UInt8) (change : List UInt8 → List UInt8)
    (hop : ∀ s part, State.runOp (site.tab r.table r.rid.pageNo) s tx.startTs part
        (site.addr r.table r.rid.pageNo) op =
      State.writeRow (site.tab r.table r.rid.pageNo) s tx.startTs part
        (site.addr r.table r.rid.pageNo) r.rid.slotNo conds wtype userInsert change)
    (hwrite : wtype = .updateTuple ∨ (wtype = .deleteTuple ∧ change = id))
    (hlength : ∀ value, value.length = (site.tabs r.table).valueSize →
      (change value).length = (site.tabs r.table).valueSize) :
    ∃ db' tx', db.stepOn site tx r.table r.rid.pageNo .executing [] op = .next (db', tx') ∧
      Active site heap₀ db' tx' ∧ tx'.aborting = tx.aborting ∧ db'.find = db.find ∧
      db'.view tx' =
        if (db.state r).valid = 0 ∨
          (if r ∈ tx.writeKeys then (db.state r).userInsert = 1 else conds = false) then db.view tx
        else update (db.view tx) r (if userInsert = 1 then none else
          some ((r.table, (db.state r).key), change (db.state r).value)) := by
  obtain ⟨t, ⟨p, i⟩⟩ := r
  let part := tx.onPage site t p .executing []
  let s := db.onPage t p tx.startTs part
  have htx : s.txs tx.startTs = some part := onPage_txs
  have halone : part.Alone (s.rowStates i).lock i := alone_onPage.2 (h.locked.alone ⟨t, ⟨p, i⟩⟩)
  have hskips : part.Skips (s.rowStates i) i conds ↔ ((db.state ⟨t, ⟨p, i⟩⟩).valid = 0 ∨
      if (⟨t, ⟨p, i⟩⟩ : RowId) ∈ tx.writeKeys then (db.state ⟨t, ⟨p, i⟩⟩).userInsert = 1
      else conds = false) := by
    show (_ ∨ if i ∈ slotsOn tx.writeKeys t p then _ else _) ↔ _
    simp only [mem_slotsOn]
    rfl
  by_cases hskip : part.Skips (s.rowStates i) i conds
  · obtain ⟨s', hs', hstep⟩ := writeRow_skips (site.addr t p) wtype userInsert change
      (site.tab t p) rfl htx halone hskip
    obtain ⟨db', hdb', hw⟩ := stepOn_next tx op ((hop s part).trans hs') hstep
    have hsame : tx.Same (tx.rejoin t p part) := same_rejoin rfl rfl rfl
    have hw : Wrote db db' ⟨t, ⟨p, i⟩⟩ (db.state ⟨t, ⟨p, i⟩⟩) (db.used ⟨t, ⟨p, i⟩⟩) := hw
    refine ⟨db', tx.rejoin t p part, hdb', h.unchanged hw hsame, ?_, hw.find, ?_⟩
    · exact Bool.or_false _
    · rw [if_pos (hskips.1 hskip)]
      obtain ⟨hstate, hused, -⟩ := hw.unchanged
      exact view_congr hstate hused hsame.mem_writeKeys
  · have hvalid : ¬ (db.state ⟨t, ⟨p, i⟩⟩).valid = 0 := (not_or.1 hskip).1
    have hlive := h.layout.live hvalid
    have hsize := h.layout.valueSize _ hlive.2
    obtain ⟨s', part', hs', hstep, htakes, hset⟩ := writeRow_writes (t := tx.startTs)
      (site.addr t p) wtype userInsert change rfl halone hskip (recordsFit site t p) hsize
    obtain ⟨db', hdb', hw⟩ := stepOn_next tx op ((hop s part).trans hs') hstep
    have htakes' := takes_rejoin htakes
    have hlen := h.layout.length ⟨t, ⟨p, i⟩⟩
    have htake : (s.rowStates i).value.take (s.rowStates i).valueSize.toNat = (s.rowStates i).value := by
      refine List.take_of_length_le (Nat.le_of_eq ?_)
      show (db.state ⟨t, ⟨p, i⟩⟩).value.length = (db.state ⟨t, ⟨p, i⟩⟩).valueSize.toNat
      rw [hlen, hsize]
      rfl
    refine ⟨db', tx.rejoin t p part', hdb', ?_, ?_, hw.find, ?_⟩
    · refine h.takes
        { wtype, slotNo := i,
          value := (s.rowStates i).value.take (s.rowStates i).valueSize.toNat,
          key := (s.rowStates i).key }
        hw htakes' hlive rfl rfl hlive.2 hsize rfl (hlength _ hlen) ?_ rfl rfl ?_
      · show part'.writeSet.map _ ++ _ = _
        rw [hset]
        rfl
      · rcases hwrite with rfl | ⟨rfl, rfl⟩
        · exact .inl ⟨rfl, htake⟩
        · exact .inr ⟨rfl, rfl⟩
    · show (tx.aborting || part'.phase == .aborting) = _
      rw [htakes.phase]
      exact Bool.or_false _
    · rw [if_neg fun hskip' => hskip (hskips.2 hskip'), view_takes hw htakes']
      congr 1
      have hlive : s.page.bitmap i = true ∧ (s.rowStates i).valid = 1 := hlive
      rw [if_pos hlive]
      rfl

end Sql
