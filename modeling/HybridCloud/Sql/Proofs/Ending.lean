import HybridCloud.Sql.Proofs.Insert

/-!
# Commit and rollback of a transaction that is alone

`TxCommitSingleSQL` unlocks the rows one after the other and takes the deleted ones off their pages
and out of the B-link trees. `TxAbortSQL` first takes the writes back, last one first, and unlocks
the rows afterwards.
-/

namespace Sql

open Outcome Storage Dtx KeyedHeap Function

variable {site : Site} {db db' : Database} {tx tx' : Transaction} {r : RowId}
  {heap₀ : RowId → Option (Key × List UInt8)}

/-- The transaction no longer has the row. -/
structure Transaction.Drops (tx tx' : Transaction) (r : RowId) : Prop where
  mem_readKeys : ∀ q, q ∈ tx'.readKeys ↔ q ∈ tx.readKeys ∧ q ≠ r
  mem_writeKeys : ∀ q, q ∈ tx'.writeKeys ↔ q ∈ tx.writeKeys ∧ q ≠ r
  startTs : tx'.startTs = tx.startTs
  writeSet : tx'.writeSet = tx.writeSet

variable {keys : List RowId} {i p t : Nat}

theorem mem_rejoin_filter :
    r ∈ replaceOn keys t p ((slotsOn keys t p).filter (· ≠ i)) ↔ r ∈ keys ∧ r ≠ ⟨t, ⟨p, i⟩⟩ := by
  refine mem_replaceOn_slotsOn (P := fun q => q ∈ keys ∧ q ≠ ⟨t, ⟨p, i⟩⟩) (fun j => ?_) fun hne => ?_
  · rw [List.mem_filter, mem_slotsOn]
    simp
  · refine and_iff_left ?_
    rintro rfl
    exact hne ⟨rfl, rfl⟩

theorem mem_rejoin_absent (habsent : (⟨t, ⟨p, i⟩⟩ : RowId) ∉ keys) :
    r ∈ replaceOn keys t p (slotsOn keys t p) ↔ r ∈ keys ∧ r ≠ ⟨t, ⟨p, i⟩⟩ := by
  rw [mem_rejoin_same]
  refine (and_iff_left_of_imp ?_).symm
  rintro hmem rfl
  exact habsent hmem

theorem Transaction.Drops.writeKeys_nil (h : tx.Drops tx' r) (hnil : tx.writeKeys = []) :
    tx'.writeKeys = [] := by
  rw [← List.subset_nil, ← hnil]
  exact fun q hq => ((h.mem_writeKeys q).1 hq).1

theorem Transaction.Drops.readKeys_nil (h : tx.Drops tx' r) (hnil : tx.readKeys = []) :
    tx'.readKeys = [] := by
  rw [← List.subset_nil, ← hnil]
  exact fun q hq => ((h.mem_readKeys q).1 hq).1

/-- A loop over the keys that takes out each of them leaves none. -/
theorem drops_all (keys : Transaction → List RowId) (P : Database → Transaction → Prop)
    (loop : List RowId → Database → Transaction → Outcome (Database × Transaction))
    (nil : ∀ db tx, loop [] db tx = .next (db, tx))
    (cons : ∀ {db tx r} (rs), P db tx → r ∈ keys tx → ∃ db' tx',
      loop (r :: rs) db tx = loop rs db' tx' ∧ P db' tx' ∧
        ∀ q, q ∈ keys tx' ↔ q ∈ keys tx ∧ q ≠ r)
    (h : P db tx) : ∃ db' tx',
      loop (site.order (keys tx)) db tx = .next (db', tx') ∧ P db' tx' ∧ keys tx' = [] := by
  have hnodup := site.order_nodup (keys tx)
  have hkeys := fun q => (site.mem_order (keys tx) q).symm
  generalize site.order (keys tx) = rs at hnodup hkeys
  induction rs generalizing db tx with
  | nil =>
    refine ⟨db, tx, nil db tx, h, List.eq_nil_iff_forall_not_mem.2 fun q hq => ?_⟩
    exact List.not_mem_nil ((hkeys q).1 hq)
  | cons r rs ih =>
    obtain ⟨hnot, hnodup⟩ := List.nodup_cons.1 hnodup
    obtain ⟨db₁, tx₁, hstep, h₁, hdrops⟩ := cons rs h ((hkeys r).2 List.mem_cons_self)
    rw [hstep]
    refine ih h₁ hnodup fun q => ?_
    rw [hdrops, hkeys, List.mem_cons]
    constructor
    · rintro ⟨heq | hmem, hne⟩
      · exact absurd heq hne
      · exact hmem
    · intro hmem
      refine ⟨.inr hmem, ?_⟩
      rintro rfl
      exact hnot hmem

/-- The database while a transaction ends. -/
structure Ending (site : Site) (db : Database) (tx : Transaction) : Prop where
  indexed : Indexed db.find db.heap
  layout : Layout site db
  locked : Locked site db tx

theorem Active.ending (h : Active site heap₀ db tx) : Ending site db tx :=
  ⟨h.indexed, h.layout, h.locked⟩

variable {x : RowState} {bit : Bool}

theorem Locked.drops (h : Locked site db tx) (hw : Wrote db db' r x bit) (hdrops : tx.Drops tx' r)
    (hlock : x.lock = UNLOCKED) : Locked site db' tx' := by
  constructor
  · intro q
    unfold Transaction.Alone
    rw [hdrops.mem_readKeys, hdrops.mem_writeKeys]
    by_cases hq : q = r
    · subst hq
      rw [hw.state_self]
      exact .inl ⟨hlock, fun h => h.2 rfl, fun h => h.2 rfl⟩
    · rw [hw.state_of_ne hq]
      simpa [hq, Transaction.Alone] using h.alone q
  · intro q hq
    obtain ⟨hmem, hqr⟩ := (hdrops.mem_writeKeys q).1 hq
    rw [hw.state_of_ne hqr, hdrops.startTs]
    exact h.time q hmem
  · intro q hq
    obtain ⟨hmem, hqr⟩ := (hdrops.mem_writeKeys q).1 hq
    rw [hw.state_of_ne hqr]
    exact h.size q hmem

/-- The rows that the transaction has are live. -/
def Live (db : Database) (tx : Transaction) : Prop :=
  ∀ r, r ∈ tx.readKeys ∨ r ∈ tx.writeKeys → db.used r = true ∧ (db.state r).valid = 1

theorem Live.drops (h : Live db tx) (hw : Wrote db db' r x bit) (hdrops : tx.Drops tx' r) :
    Live db' tx' := by
  intro q hq
  rw [hdrops.mem_readKeys, hdrops.mem_writeKeys, ← or_and_right] at hq
  rw [hw.used_of_ne hq.2, hw.state_of_ne hq.2]
  exact h q hq.1

/-- A row that is unlocked and otherwise stays as it is. -/
def Unlocks (x x' : RowState) : Prop :=
  x'.lock = UNLOCKED ∧ x'.key = x.key ∧ x'.value = x.value ∧ x'.valid = x.valid ∧
    x'.valueSize = x.valueSize

theorem Wrote.heap_unlocks (hw : Wrote db db' r x (db.used r)) (hx : Unlocks (db.state r) x) :
    db'.heap = db.heap := by
  obtain ⟨-, hkey, hvalue, hvalid, -⟩ := hx
  rw [hw.heap, hkey, hvalue, hvalid]
  exact update_eq_self r db.heap

theorem Ending.unlocks (h : Ending site db tx) (hw : Wrote db db' r x (db.used r))
    (hdrops : tx.Drops tx' r) (hx : Unlocks (db.state r) x) : Ending site db' tx' := by
  have hheap := hw.heap_unlocks hx
  obtain ⟨hlock, -, hvalue, hvalid, hsize⟩ := hx
  refine ⟨?_, ?_, h.locked.drops hw hdrops hlock⟩
  · rw [hw.find, hheap]
    exact h.indexed
  · refine h.layout.wrote hw ?_ ?_ ?_ ?_ (h.layout.bounds r)
    · rw [hvalid]
      exact h.layout.free r
    · rw [hvalid]
      exact h.layout.valid r
    · rw [hvalid, hsize]
      exact h.layout.valueSize r
    · rw [hvalue]
      exact h.layout.length r

theorem view_drops (hw : Wrote db db' r x bit) (hdrops : tx.Drops tx' r)
    (hself : db'.heap r = db.view tx r) : db'.view tx' = db.view tx := by
  funext q
  show (if q ∈ tx'.writeKeys ∧ (db'.state q).userInsert = 1 then none else db'.heap q) = _
  by_cases hq : q = r
  · subst hq
    rw [if_neg fun h => ((hdrops.mem_writeKeys q).1 h.1).2 rfl, hself]
  · simp only [hdrops.mem_writeKeys, hq, ne_eq, not_false_eq_true, and_true, hw.state_of_ne hq]
    rw [hw.heap, update_of_ne hq]
    rfl

/-- What each step of `TxCommitSingleSQL` keeps. -/
structure Committing (site : Site) (view : RowId → Option (Key × List UInt8)) (db : Database)
    (tx : Transaction) : Prop extends Ending site db tx where
  live : Live db tx
  view : db.view tx = view

variable {view : RowId → Option (Key × List UInt8)}

theorem drops_write (site : Site) (phase : Phase) (hread : (⟨t, ⟨p, i⟩⟩ : RowId) ∉ tx.readKeys) :
    tx.Drops (tx.rejoin t p { tx.onPage site t p phase [] with
      writeKeys := (slotsOn tx.writeKeys t p).filter (· ≠ i) }) ⟨t, ⟨p, i⟩⟩ :=
  ⟨fun _ => mem_rejoin_absent hread, fun _ => mem_rejoin_filter, rfl, rfl⟩

theorem drops_read (site : Site) (phase : Phase) (hwrite : (⟨t, ⟨p, i⟩⟩ : RowId) ∉ tx.writeKeys) :
    tx.Drops (tx.rejoin t p { tx.onPage site t p phase [] with
      readKeys := (slotsOn tx.readKeys t p).filter (· ≠ i) }) ⟨t, ⟨p, i⟩⟩ :=
  ⟨fun _ => mem_rejoin_filter, fun _ => mem_rejoin_absent hwrite, rfl, rfl⟩

theorem Locked.writer (h : Locked site db tx) (hmem : r ∈ tx.writeKeys) :
    (db.state r).lock = EXCLUSIVE_LOCKED ∧ r ∉ tx.readKeys := by
  rcases h.alone r with ⟨-, -, hnot⟩ | ⟨-, -, hnot⟩ | ⟨hlock, hread, -⟩
  · exact absurd hmem hnot
  · exact absurd hmem hnot
  · exact ⟨hlock, hread⟩

theorem Locked.reader (h : Locked site db tx) (hmem : r ∈ tx.readKeys) :
    (db.state r).lock = 1 ∧ r ∉ tx.writeKeys := by
  rcases h.alone r with ⟨-, hnot, -⟩ | ⟨hlock, -, hwrite⟩ | ⟨-, hnot, -⟩
  · exact absurd hmem hnot
  · exact ⟨hlock, hwrite⟩
  · exact absurd hmem hnot

theorem Committing.removes (h : Committing site view db tx) (hmem : r ∈ tx.writeKeys)
    (hdeleted : (db.state r).userInsert = 1) (hw : Wrote db db' r (committed (db.state r)) false)
    (hdrops : tx.Drops tx' r) :
    Committing site view (db'.deleteFromBlink r.table (db.state r).key) tx' := by
  have hvalid : (committed (db.state r)).valid = 0 := if_pos hdeleted
  have hheap : db'.heap = update db.heap r none := by
    rw [hw.heap, if_neg (by simp)]
  have hrow := heap_of_live (h.live r (.inr hmem))
  have hlayout : Layout site db' := by
    refine h.layout.wrote hw (fun _ => hvalid) (.inl hvalid) ?_ (h.layout.length r) nofun
    rw [hvalid]
    exact fun hone => absurd hone (by decide)
  have hlive : Live db' tx' := h.live.drops hw hdrops
  refine ⟨⟨?_, hlayout.withIndex _, (h.locked.drops hw hdrops rfl).withIndex _⟩, hlive, ?_⟩
  · rw [find_deleteFromBlink, hw.find]
    show Indexed _ db'.heap
    rw [hheap]
    exact h.indexed.remove hrow
  · refine (view_drops hw hdrops ?_).trans h.view
    rw [hheap, update_self]
    exact (if_pos ⟨hmem, hdeleted⟩).symm

theorem Committing.commitWrite (h : Committing site view db tx) (commitTs : Nat)
    (hmem : r ∈ tx.writeKeys) :
    ∃ db' tx', db.stepOn site tx r.table r.rid.pageNo (.committing commitTs) []
        (.commitWriteKey r.rid.slotNo none) = .next (db', tx') ∧ tx.Drops tx' r ∧
      Committing site view (if (db.state r).userInsert == 1 then
        db'.deleteFromBlink r.table (db.state r).key else db') tx' := by
  obtain ⟨t, ⟨p, i⟩⟩ := r
  obtain ⟨hlock, hread⟩ := h.locked.writer hmem
  let part := tx.onPage site t p (.committing commitTs) []
  let s := db.onPage t p tx.startTs part
  have hmem' : i ∈ part.writeKeys := mem_slotsOn.2 hmem
  obtain ⟨s', hs', hstep⟩ := commitWriteKey_next (s := s) (t := tx.startTs) (site.tab t p)
    (site.addr t p) rfl hmem' hlock (h.locked.time _ hmem) (recordsFit site t p)
    (h.locked.size _ hmem)
  have hs' : s.runOp (site.tab t p) tx.startTs part (site.addr t p) (.commitWriteKey i none) =
      .next s' := hs'
  obtain ⟨db', hdb', hw⟩ := stepOn_next tx (.commitWriteKey i none) hs' hstep
  have hdrops := drops_write site (.committing commitTs) hread
  refine ⟨db', _, hdb', hdrops, ?_⟩
  have hw : Wrote db db' ⟨t, ⟨p, i⟩⟩ (committed (db.state ⟨t, ⟨p, i⟩⟩))
    (if (db.state ⟨t, ⟨p, i⟩⟩).userInsert = 1 then false else db.used ⟨t, ⟨p, i⟩⟩) := hw
  by_cases hdeleted : (db.state ⟨t, ⟨p, i⟩⟩).userInsert = 1
  · rw [if_pos hdeleted] at hw
    rw [if_pos (beq_iff_eq.2 hdeleted)]
    exact h.removes hmem hdeleted hw hdrops
  · rw [if_neg hdeleted] at hw
    rw [if_neg fun heq => hdeleted (beq_iff_eq.1 heq)]
    have hx : Unlocks (db.state ⟨t, ⟨p, i⟩⟩) (committed (db.state ⟨t, ⟨p, i⟩⟩)) :=
      ⟨rfl, rfl, rfl, if_neg hdeleted, rfl⟩
    refine ⟨h.toEnding.unlocks hw hdrops hx, h.live.drops hw hdrops, ?_⟩
    refine (view_drops hw hdrops ?_).trans h.view
    rw [hw.heap_unlocks hx]
    exact (if_neg fun hseen => hdeleted hseen.2).symm

theorem Committing.commitWrites (h : Committing site view db tx) (commitTs : Nat) :
    ∃ db' tx', Database.commitWrites site commitTs (site.order tx.writeKeys) db tx =
      .next (db', tx') ∧ Committing site view db' tx' ∧ tx'.writeKeys = [] := by
  refine drops_all Transaction.writeKeys (Committing site view) _ (fun _ _ => rfl) ?_ h
  intro db tx r rs h hmem
  obtain ⟨db₁, tx₁, hstep, hdrops, h₁⟩ := h.commitWrite commitTs hmem
  refine ⟨_, tx₁, ?_, h₁, hdrops.mem_writeKeys⟩
  show (Database.stepOn site db tx _ _ _ _ _ >>= _) = _
  rw [hstep]
  rfl

theorem Ending.unlockRead (h : Ending site db tx) (hmem : r ∈ tx.readKeys)
    (hvalid : (db.state r).valid = 1) (phase : Phase) (op : Op) (newLock : UInt64 → UInt64)
    (key : UInt64 → Option UInt64) (hnew : newLock 1 = UNLOCKED)
    (hop : ∀ s, State.runOp (site.tab r.table r.rid.pageNo) s tx.startTs
        (tx.onPage site r.table r.rid.pageNo phase []) (site.addr r.table r.rid.pageNo) op =
      State.unlockReadKey (site.tab r.table r.rid.pageNo) s tx.startTs
        (tx.onPage site r.table r.rid.pageNo phase []) (site.addr r.table r.rid.pageNo) r.rid.slotNo
        newLock key) :
    ∃ db' tx', db.stepOn site tx r.table r.rid.pageNo phase [] op = .next (db', tx') ∧
      tx.Drops tx' r ∧ ∃ x, Unlocks (db.state r) x ∧ Wrote db db' r x (db.used r) := by
  obtain ⟨t, ⟨p, i⟩⟩ := r
  obtain ⟨hlock, hwrite⟩ := h.locked.reader hmem
  let part := tx.onPage site t p phase []
  let s := db.onPage t p tx.startTs part
  have hmem' : i ∈ part.readKeys := mem_slotsOn.2 hmem
  obtain ⟨s', hs', hstep⟩ := unlockReadKey_alone (s := s) (t := tx.startTs) (site.tab t p)
    (site.addr t p) newLock key hmem' hlock hnew (recordsFit site t p)
    (h.layout.valueSize _ hvalid)
  obtain ⟨db', hdb', hw⟩ := stepOn_next tx op ((hop s).trans hs') hstep
  exact ⟨db', _, hdb', drops_read site phase hwrite,
    { db.state ⟨t, ⟨p, i⟩⟩ with lock := UNLOCKED }, ⟨rfl, rfl, rfl, rfl, rfl⟩, hw⟩

theorem Committing.commitRead (h : Committing site view db tx) (commitTs : Nat)
    (hmem : r ∈ tx.readKeys) (hnil : tx.writeKeys = []) :
    ∃ db' tx', db.stepOn site tx r.table r.rid.pageNo (.committing commitTs) []
        (.commitReadKey r.rid.slotNo) = .next (db', tx') ∧ tx.Drops tx' r ∧
      Committing site view db' tx' := by
  obtain ⟨db', tx', hdb', hdrops, x, hx, hw⟩ := h.unlockRead hmem (h.live r (.inl hmem)).2
    (.committing commitTs) (.commitReadKey r.rid.slotNo) (· - 1) some rfl fun s => by
      have hnone : (tx.onPage site r.table r.rid.pageNo (.committing commitTs) []).writeKeys = [] := by
        show slotsOn tx.writeKeys _ _ = []
        rw [hnil]
        rfl
      exact await_bind hnone _
  refine ⟨db', tx', hdb', hdrops, h.toEnding.unlocks hw hdrops hx, h.live.drops hw hdrops, ?_⟩
  refine (view_drops hw hdrops ?_).trans h.view
  rw [hw.heap_unlocks hx]
  exact (if_neg fun hseen => (h.locked.reader hmem).2 hseen.1).symm

theorem Committing.commitReads (h : Committing site view db tx) (commitTs : Nat)
    (hwrites : tx.writeKeys = []) :
    ∃ db' tx', Database.commitReads site commitTs (site.order tx.readKeys) db tx =
      .next (db', tx') ∧ (Committing site view db' tx' ∧ tx'.writeKeys = []) ∧
        tx'.readKeys = [] := by
  refine drops_all Transaction.readKeys (fun db tx => Committing site view db tx ∧ tx.writeKeys = [])
    _ (fun _ _ => rfl) ?_ ⟨h, hwrites⟩
  rintro db tx r rs ⟨h, hwrites⟩ hmem
  obtain ⟨db₁, tx₁, hstep, hdrops, h₁⟩ := h.commitRead commitTs hmem hwrites
  refine ⟨db₁, tx₁, ?_, ⟨h₁, hdrops.writeKeys_nil hwrites⟩, hdrops.mem_readKeys⟩
  show (Database.stepOn site db tx _ _ _ _ _ >>= _) = _
  rw [hstep]
  rfl

theorem Ending.consistent (h : Ending site db tx) (hreads : tx.readKeys = [])
    (hwrites : tx.writeKeys = []) : db.Consistent site where
  indexed := h.indexed
  unlocked r := by
    rcases h.locked.alone r with ⟨hlock, -, -⟩ | ⟨-, hmem, -⟩ | ⟨-, -, hmem⟩
    · exact hlock
    · rw [hreads] at hmem
      exact absurd hmem List.not_mem_nil
    · rw [hwrites] at hmem
      exact absurd hmem List.not_mem_nil
  free := h.layout.free
  valid := h.layout.valid
  valueSize := h.layout.valueSize
  length := h.layout.length
  bounds := h.layout.bounds

theorem within_view : Within (db.view tx) db.heap := by
  intro r x hx
  unfold Database.view at hx
  split at hx
  · cases hx
  · exact hx

theorem view_of_no_writes (h : tx.writeKeys = []) : db.view tx = db.heap := by
  funext r
  unfold Database.view
  rw [h]
  exact if_neg fun hmem => List.not_mem_nil hmem.1

/-- `TxCommitSingleSQL` makes the rows visible that the transaction sees. -/
theorem Active.commits (h : Active site heap₀ db tx) (commitTs : Nat) :
    ∃ db', db.txCommitSingleSQL site commitTs tx = .next db' ∧ db'.Consistent site ∧
      db'.rows = KeyedHeap.rows db.find (db.view tx) := by
  have h₀ : Committing site (db.view tx) db tx := ⟨h.ending, h.live, rfl⟩
  obtain ⟨db₁, tx₁, hwrites, h₁, hnil₁⟩ := h₀.commitWrites commitTs
  obtain ⟨db₂, tx₂, hreads, ⟨h₂, hnil₂'⟩, hnil₂⟩ := h₁.commitReads commitTs hnil₁
  refine ⟨db₂, ?_, h₂.consistent hnil₂ hnil₂', ?_⟩
  · unfold Database.txCommitSingleSQL
    simp only [hwrites, next_bind, hreads]
    rfl
  · have hview : db₂.heap = db.view tx := (view_of_no_writes hnil₂').symm.trans h₂.view
    refine rows_ext h₂.indexed (Within.refl _) h.indexed within_view fun k v => ?_
    rw [hview]

/-- The database while `TxAbortSQL` takes the writes back. -/
structure Aborting (site : Site) (heap₀ : RowId → Option (Key × List UInt8)) (db : Database)
    (tx : Transaction) : Prop extends Ending site db tx where
  undoes : UndoesTo heap₀ (tx.writeSet.map toWrite) db.heap
  writes : ∀ w ∈ tx.writeSet, (⟨w.1, ⟨w.2.1, w.2.2.slotNo⟩⟩ : RowId) ∈ tx.writeKeys ∧
    (w.2.2.wtype = .updateTuple → w.2.2.value.length = (site.tabs w.1).valueSize)

theorem Active.abortRead (h : Active site heap₀ db tx) (hmem : r ∈ tx.readKeys) :
    ∃ db' tx', db.stepOn site tx r.table r.rid.pageNo .aborting [] (.abortReadKey r.rid.slotNo) =
        .next (db', tx') ∧ tx.Drops tx' r ∧ Active site heap₀ db' tx' := by
  obtain ⟨db', tx', hdb', hdrops, x, hx, hw⟩ := h.ending.unlockRead hmem (h.live r (.inl hmem)).2
    .aborting (.abortReadKey r.rid.slotNo) (fun _ => UNLOCKED)
    (site.tab r.table r.rid.pageNo).pkPtr rfl fun s => by
      have hphase : (tx.onPage site r.table r.rid.pageNo .aborting []).phase = .aborting := rfl
      exact await_bind hphase _
  have hend := h.ending.unlocks hw hdrops hx
  refine ⟨db', tx', hdb', hdrops, hend.indexed, hend.layout, hend.locked,
    Live.drops h.live hw hdrops, ?_, ?_⟩
  · rw [hdrops.writeSet, hw.heap_unlocks hx]
    exact h.undoes
  · intro w hw
    rw [hdrops.writeSet] at hw
    refine ⟨(hdrops.mem_writeKeys _).2 ⟨(h.writes w hw).1, ?_⟩, (h.writes w hw).2⟩
    intro heq
    exact (h.locked.reader hmem).2 (heq ▸ (h.writes w hw).1)

theorem Active.abortReads (h : Active site heap₀ db tx) :
    ∃ db' tx', Database.abortReads site (site.order tx.readKeys) db tx = .next (db', tx') ∧
      Active site heap₀ db' tx' ∧ tx'.readKeys = [] := by
  refine drops_all Transaction.readKeys (Active site heap₀) _ (fun _ _ => rfl) ?_ h
  intro db tx r rs h hmem
  obtain ⟨db₁, tx₁, hstep, hdrops, h₁⟩ := h.abortRead hmem
  refine ⟨db₁, tx₁, ?_, h₁, hdrops.mem_readKeys⟩
  show (Database.stepOn site db tx _ _ _ _ _ >>= _) = _
  rw [hstep]
  rfl

theorem place_toWrite (w : Nat × Nat × WriteRecord) :
    (toWrite w).place = ⟨w.1, ⟨w.2.1, w.2.2.slotNo⟩⟩ ∧ (toWrite w).key = (w.1, w.2.2.key) := by
  unfold toWrite
  cases w.2.2.wtype <;> exact ⟨rfl, rfl⟩

variable {writes : List (Nat × Nat × WriteRecord)} {write : WriteRecord}

theorem Aborting.undo (h : Aborting site heap₀ db tx)
    (hset : tx.writeSet = (t, p, write) :: writes)
    (hw : Wrote db db' ⟨t, ⟨p, write.slotNo⟩⟩ (undone (db.state ⟨t, ⟨p, write.slotNo⟩⟩) write)
      (if write.wtype = .insertTuple then false else db.used ⟨t, ⟨p, write.slotNo⟩⟩)) :
    Indexed (db'.undoIndex t p write).find db'.heap ∧ Layout site db' ∧
      db'.heap = (toWrite (t, p, write)).undo db.heap := by
  have hundoes := h.undoes
  rw [hset, List.map_cons] at hundoes
  obtain ⟨⟨v, hrow⟩, -⟩ := hundoes
  rw [(place_toWrite _).1, (place_toWrite _).2] at hrow
  have hmem : (t, p, write) ∈ tx.writeSet := by
    rw [hset]
    exact List.mem_cons_self
  obtain ⟨hkeyed, hlength⟩ := h.writes _ hmem
  obtain ⟨hlive, hkey⟩ := heap_eq_some.1 hrow
  have hlayout := h.layout
  generalize hr : (⟨t, ⟨p, write.slotNo⟩⟩ : RowId) = r at *
  have ht : r.table = t := by rw [← hr]
  unfold Database.undoIndex
  cases hwtype : write.wtype with
  | deleteTuple =>
    have hundone : undone (db.state r) write = db.state r := by
      unfold undone
      rw [hwtype]
    rw [hundone, hwtype, if_neg (by decide)] at hw
    obtain ⟨-, -, hheap⟩ := hw.unchanged
    have hindex : db'.find (t, write.key) = some r := by
      rw [hw.find]
      exact (h.indexed _ _).2 ⟨v, hrow⟩
    have hsome : ∃ rid, db'.index t write.key = some rid := by
      obtain ⟨rid, hrid, -⟩ := Option.map_eq_some_iff.1 hindex
      exact ⟨rid, hrid⟩
    obtain ⟨rid, hrid⟩ := hsome
    refine ⟨?_, ?_, ?_⟩
    · unfold Database.insertIntoBlink
      rw [hrid, hheap]
      rw [hw.find]
      exact h.indexed
    · exact hlayout.wrote hw (hlayout.free r) (hlayout.valid r) (hlayout.valueSize r)
        (hlayout.length r) (hlayout.bounds r)
    · rw [hheap]
      unfold toWrite
      simp only [hwtype]
      rfl
  | insertTuple =>
    have hundone : undone (db.state r) write = { db.state r with valid := 0 } := by
      unfold undone
      rw [hwtype]
    rw [hundone, hwtype, if_pos rfl] at hw
    have hheap : db'.heap = update db.heap r none := by
      rw [hw.heap, if_neg (by simp)]
    refine ⟨?_, ?_, ?_⟩
    · rw [find_deleteFromBlink, hw.find, hheap]
      exact h.indexed.remove hrow
    · refine hlayout.wrote hw (fun _ => rfl) (.inl rfl) (fun hone => ?_) (hlayout.length r) nofun
      have hone : (0 : UInt8) = 1 := hone
      exact absurd hone (by decide)
    · rw [hheap]
      unfold toWrite
      simp only [hwtype, hr]
      rfl
  | updateTuple =>
    have hsize := hlayout.valueSize r hlive.2
    have hvalue : copyInto (db.state r).value 0 (write.value.take (db.state r).valueSize.toNat) =
        write.value := by
      have hlen : write.value.length = (site.tabs t).valueSize := hlength hwtype
      have htake : write.value.take (db.state r).valueSize.toNat = write.value := by
        refine List.take_of_length_le (Nat.le_of_eq ?_)
        rw [hlen, hsize, ht]
        rfl
      rw [htake]
      refine copyInto_of_length ?_
      rw [hlayout.length r, hlen, ht]
    have hundone : undone (db.state r) write = { db.state r with value := write.value } := by
      unfold undone
      simp only [hwtype, hvalue]
    rw [hundone, hwtype, if_neg (by decide)] at hw
    have hheap : db'.heap = update db.heap r (some ((t, write.key), write.value)) := by
      rw [hw.heap, if_pos hlive]
      have hkey : (t, write.key) = (r.table, (db.state r).key) := (Prod.mk.inj hkey).1
      rw [hkey]
    refine ⟨?_, ?_, ?_⟩
    · rw [hw.find, hheap]
      exact h.indexed.set hrow write.value
    · refine hlayout.wrote hw (hlayout.free r) (hlayout.valid r) (hlayout.valueSize r) ?_
        (hlayout.bounds r)
      rw [hlength hwtype, ht]
    · rw [hheap]
      unfold toWrite
      simp only [hwtype, hr]
      rfl

theorem undone_locked (x : RowState) (write : WriteRecord) :
    (undone x write).lock = x.lock ∧ (undone x write).timeStamp = x.timeStamp ∧
      (undone x write).valueSize = x.valueSize := by
  unfold undone
  cases write.wtype <;> exact ⟨rfl, rfl, rfl⟩

theorem undoIndex_pages (db : Database) (t p : Nat) (write : WriteRecord) :
    ∃ index, db.undoIndex t p write = { db with index := index } := by
  unfold Database.undoIndex Database.insertIntoBlink
  split
  · split
    · exact ⟨db.index, rfl⟩
    · exact ⟨_, rfl⟩
  · exact ⟨_, rfl⟩
  · exact ⟨db.index, rfl⟩

/-- One undo step of an abort. -/
theorem Aborting.abortUndo_step (h : Aborting site heap₀ db tx)
    (hset : tx.writeSet = (t, p, write) :: writes) (hreads : tx.readKeys = []) :
    ∃ db' tx', db.stepOn site { tx with writeSet := writes } t p .aborting [write] .abortUndo =
        .next (db', tx') ∧
      Aborting site heap₀ (db'.undoIndex t p write) tx' ∧ tx'.writeSet = writes ∧
      tx'.readKeys = [] := by
  have hundoes := h.undoes
  rw [hset, List.map_cons] at hundoes
  obtain ⟨⟨v, hrow⟩, hundoes⟩ := hundoes
  rw [(place_toWrite _).1, (place_toWrite _).2] at hrow
  obtain ⟨hlive, hkey⟩ := heap_eq_some.1 hrow
  have hmem : (t, p, write) ∈ tx.writeSet := by
    rw [hset]
    exact List.mem_cons_self
  have hkeyed := (h.writes _ hmem).1
  let tx₀ : Transaction := { tx with writeSet := writes }
  let part := tx₀.onPage site t p .aborting [write]
  let s := db.onPage t p tx.startTs part
  have hreads' : part.readKeys = [] := by
    show slotsOn tx.readKeys t p = []
    rw [hreads]
    rfl
  have hkeyed' : write.slotNo ∈ part.writeKeys := mem_slotsOn.2 hkeyed
  have hkey' : (s.rowStates write.slotNo).key = write.key :=
    (Prod.mk.inj (Prod.mk.inj hkey).1).2.symm
  obtain ⟨s', hs', hstep⟩ := abortUndo_next (s := s) (t := tx.startTs) (site.tab t p)
    (site.addr t p) rfl hreads' rfl hkeyed' hkey' (recordsFit site t p) (h.locked.size _ hkeyed)
    fun _ => hlive.1
  have hs' : s.runOp (site.tab t p) tx₀.startTs part (site.addr t p) .abortUndo = .next s' := hs'
  obtain ⟨db', hdb', hw⟩ := stepOn_next tx₀ .abortUndo hs' hstep
  have hsame : tx₀.Same (tx₀.rejoin t p { part with writeSet := [] }) := same_rejoin rfl rfl rfl
  obtain ⟨hindexed, hlayout, hheap⟩ := h.undo hset hw
  obtain ⟨hlock, htime, hsize⟩ := undone_locked (db.state ⟨t, ⟨p, write.slotNo⟩⟩) write
  have hlocked₀ : Locked site db tx₀ := ⟨h.locked.alone, h.locked.time, h.locked.size⟩
  have hlocked := hlocked₀.rewrites hw hsame hlock htime hsize
  obtain ⟨index, hindex⟩ := undoIndex_pages db' t p write
  refine ⟨db', _, hdb', ⟨⟨?_, ?_, ?_⟩, ?_, ?_⟩, hsame.writeSet, ?_⟩
  · rw [hindex] at hindexed ⊢
    exact hindexed
  · rw [hindex]
    exact hlayout.withIndex index
  · rw [hindex]
    exact hlocked.withIndex index
  · rw [hindex, hsame.writeSet]
    show UndoesTo heap₀ (writes.map toWrite) db'.heap
    rw [hheap]
    exact hundoes
  · intro w hw
    have hw : w ∈ tx.writeSet := by
      rw [hset]
      exact List.mem_cons_of_mem _ hw
    exact ⟨(hsame.mem_writeKeys _).2 (h.writes w hw).1, (h.writes w hw).2⟩
  · rw [← List.subset_nil, ← hreads]
    exact fun q hq => (hsame.mem_readKeys q).1 hq

theorem Aborting.abortUndo (writes : List (Nat × Nat × WriteRecord)) (h : Aborting site heap₀ db tx)
    (hset : tx.writeSet = writes) (hreads : tx.readKeys = []) :
    ∃ db' tx', Database.abortUndo site writes db tx = .next (db', tx') ∧ Ending site db' tx' ∧
      db'.heap = heap₀ ∧ tx'.writeSet = [] ∧ tx'.readKeys = [] := by
  induction writes generalizing db tx with
  | nil =>
    have hundoes := h.undoes
    rw [hset] at hundoes
    exact ⟨db, tx, rfl, h.toEnding, hundoes, hset, hreads⟩
  | cons w writes ih =>
    obtain ⟨t, p, write⟩ := w
    obtain ⟨db₁, tx₁, hstep, h₁, hset₁, hreads₁⟩ := h.abortUndo_step hset hreads
    obtain ⟨db', tx', hloop, hend⟩ := ih h₁ hset₁ hreads₁
    refine ⟨db', tx', ?_, hend⟩
    unfold Database.abortUndo
    simp only [hstep, next_bind]
    exact hloop

theorem Ending.abortWrite (h : Ending site db tx) (hmem : r ∈ tx.writeKeys)
    (hreads : tx.readKeys = []) :
    ∃ db' tx', db.stepOn site tx r.table r.rid.pageNo .aborting []
        (.abortWriteKey r.rid.slotNo none) = .next (db', tx') ∧ tx.Drops tx' r ∧
      Ending site db' tx' ∧ db'.heap = db.heap := by
  obtain ⟨t, ⟨p, i⟩⟩ := r
  obtain ⟨hlock, hread⟩ := h.locked.writer hmem
  let part := tx.onPage site t p .aborting []
  let s := db.onPage t p tx.startTs part
  have hreads' : part.readKeys = [] := by
    show slotsOn tx.readKeys t p = []
    rw [hreads]
    rfl
  have hmem' : i ∈ part.writeKeys := mem_slotsOn.2 hmem
  obtain ⟨s', hs', hstep⟩ := abortWriteKey_next (s := s) (t := tx.startTs) (site.tab t p)
    (site.addr t p) rfl hreads' rfl hmem' hlock (h.locked.time _ hmem) (recordsFit site t p)
    (h.locked.size _ hmem)
  have hs' : s.runOp (site.tab t p) tx.startTs part (site.addr t p) (.abortWriteKey i none) =
      .next s' := hs'
  obtain ⟨db', hdb', hw⟩ := stepOn_next tx (.abortWriteKey i none) hs' hstep
  have hdrops := drops_write site .aborting hread
  have hw : Wrote db db' ⟨t, ⟨p, i⟩⟩ { db.state ⟨t, ⟨p, i⟩⟩ with lock := UNLOCKED }
    (db.used ⟨t, ⟨p, i⟩⟩) := hw
  have hx : Unlocks (db.state ⟨t, ⟨p, i⟩⟩) { db.state ⟨t, ⟨p, i⟩⟩ with lock := UNLOCKED } :=
    ⟨rfl, rfl, rfl, rfl, rfl⟩
  exact ⟨db', _, hdb', hdrops, h.unlocks hw hdrops hx, hw.heap_unlocks hx⟩

theorem Ending.abortWrites (h : Ending site db tx) (hreads : tx.readKeys = []) :
    ∃ db' tx', Database.abortWrites site (site.order tx.writeKeys) db tx = .next (db', tx') ∧
      (Ending site db' tx' ∧ db'.heap = db.heap ∧ tx'.readKeys = []) ∧ tx'.writeKeys = [] := by
  refine drops_all Transaction.writeKeys
    (fun db' tx' => Ending site db' tx' ∧ db'.heap = db.heap ∧ tx'.readKeys = []) _
    (fun _ _ => rfl) ?_ ⟨h, rfl, hreads⟩
  rintro db' tx' r rs ⟨h, hheap, hreads⟩ hmem
  obtain ⟨db₁, tx₁, hstep, hdrops, h₁, hheap₁⟩ := h.abortWrite hmem hreads
  refine ⟨db₁, tx₁, ?_, ⟨h₁, hheap₁.trans hheap, hdrops.readKeys_nil hreads⟩, hdrops.mem_writeKeys⟩
  show (Database.stepOn site db' tx' _ _ _ _ _ >>= _) = _
  rw [hstep]
  rfl

/-- `TxAbortSQL` gives the rows back that were there at the start. -/
theorem Active.aborts (h : Active site heap₀ db tx) :
    ∃ db', db.txAbortSQL site tx = .next db' ∧ db'.Consistent site ∧ db'.heap = heap₀ := by
  obtain ⟨db₁, tx₁, hreads, h₁, hnil₁⟩ := h.abortReads
  have h₁ : Aborting site heap₀ db₁ tx₁ := ⟨h₁.ending, h₁.undoes, h₁.writes⟩
  obtain ⟨db₂, tx₂, hundo, h₂, hheap₂, -, hnil₂⟩ := h₁.abortUndo tx₁.writeSet rfl hnil₁
  obtain ⟨db₃, tx₃, hwrites, ⟨h₃, hheap₃, hnil₃⟩, hnil₃'⟩ := h₂.abortWrites hnil₂
  refine ⟨db₃, ?_, h₃.consistent hnil₃ hnil₃', hheap₃.trans hheap₂⟩
  unfold Database.txAbortSQL
  simp only [hreads, next_bind, hundo, hwrites]
  rfl

end Sql
