import HybridCloud.Sql.Proofs.Steps

/-!
# `INSERT` by a transaction that is alone

A row is written to the first free slot of a page that the free space map proposes, or of a new
page; the loop ends after two proposals.
-/

namespace Sql

open Outcome Storage Dtx KeyedHeap Function

variable {site : Site} {db db' : Database} {tx tx' : Transaction} {r : RowId}
  {heap₀ : RowId → Option (Key × List UInt8)}

variable {key : UInt64} {t : Nat} {rid : Rid}

theorem find_update (x : Option Rid) :
    Database.find { db with index := update db.index t (update (db.index t) key x) } =
      update db.find (t, key) (x.map (⟨t, ·⟩)) := by
  funext ⟨t', key'⟩
  show Option.map _ (update db.index t (update (db.index t) key x) t' key') = _
  by_cases ht : t' = t
  · subst ht
    rw [update_self]
    by_cases hk : key' = key
    · subst hk
      rw [update_self, update_self]
    · rw [update_of_ne hk, update_of_ne (by simp [hk])]
      rfl
  · rw [update_of_ne ht, update_of_ne (by simp [ht])]
    rfl

theorem find_insertIntoBlink (habsent : db.index t key = none) :
    (db.insertIntoBlink t key rid).find = update db.find (t, key) (some ⟨t, rid⟩) := by
  unfold Database.insertIntoBlink
  rw [habsent]
  exact find_update (some rid)

theorem find_deleteFromBlink :
    (db.deleteFromBlink t key).find = update db.find (t, key) none :=
  find_update none

theorem find_eq_none : db.find (t, key) = none ↔ db.index t key = none :=
  Option.map_eq_none_iff

theorem find_of_index (h : db.index t key = some rid) : db.find (t, key) = some ⟨t, rid⟩ :=
  congrArg (Option.map _) h

theorem Active.insertExisting (h : Active site heap₀ db tx) (value : List UInt8)
    (hindex : db.index t key = some rid) :
    ∃ db' tx', db.stepOn site tx t rid.pageNo .executing [] (.insertExisting rid.slotNo value) =
        .next (db', tx') ∧
      Active site heap₀ db' tx' ∧ tx'.aborting = true := by
  obtain ⟨v, hrow⟩ := (h.indexed (t, key) ⟨t, rid⟩).1 (find_of_index hindex)
  obtain ⟨⟨-, hvalid⟩, -⟩ := heap_eq_some.1 hrow
  let part := tx.onPage site t rid.pageNo .executing []
  let s := db.onPage t rid.pageNo tx.startTs part
  have hlock : rid.slotNo ∈ part.writeKeys → (s.rowStates rid.slotNo).lock = EXCLUSIVE_LOCKED := by
    intro hmem
    have hmem : (⟨t, rid⟩ : RowId) ∈ tx.writeKeys := mem_slotsOn.1 hmem
    rcases h.locked.alone ⟨t, rid⟩ with ⟨-, -, hnot⟩ | ⟨-, -, hnot⟩ | ⟨hlock, -, -⟩
    · exact absurd hmem hnot
    · exact absurd hmem hnot
    · exact hlock
  obtain ⟨s', hs', hstep⟩ := insertExisting_aborts (s := s) (t := tx.startTs) (site.tab t rid.pageNo)
    (site.addr t rid.pageNo) value rfl onPage_txs (site.primaryKey t) hlock hvalid
  obtain ⟨db', hdb', hw⟩ := stepOn_next tx (.insertExisting rid.slotNo value) hs' hstep
  have hw : Wrote db db' ⟨t, rid⟩ (db.state ⟨t, rid⟩) (db.used ⟨t, rid⟩) := hw
  refine ⟨db', _, hdb', h.unchanged hw (same_rejoin rfl rfl rfl), ?_⟩
  exact Bool.or_true _

variable {value : List UInt8}

theorem copyInto_of_length {old : List UInt8} (h : old.length = value.length) :
    copyInto old 0 value = value := by
  rw [copyInto_zero, ← h, List.drop_length, List.append_nil]

variable {p : Nat}

theorem Active.inserted {i : Nat} {x : RowState}
    (h : Active site heap₀ db tx) (hw : Wrote db db' ⟨t, ⟨p, i⟩⟩ x true)
    (htakes : tx.Takes tx' ⟨t, ⟨p, i⟩⟩) (hunused : db.used ⟨t, ⟨p, i⟩⟩ = false)
    (habsent : db.index t key = none) (hp : p < db.numPages t)
    (hi : i < (site.tabs t).fileHdr.numRecordsPerPage)
    (hx : x =
      { key := key
        value := value
        lock := EXCLUSIVE_LOCKED
        timeStamp := tx.startTs
        valid := 1
        userInsert := 0
        valueSize := (site.tabs t).valueSize })
    (hvalue : value.length = (site.tabs t).valueSize)
    (hset : tx'.writeSet =
      (t, p, { wtype := .insertTuple, slotNo := i, value := [], key := key }) :: tx.writeSet) :
    Active site heap₀ (db'.insertIntoBlink t key ⟨p, i⟩) tx' ∧
    (db'.insertIntoBlink t key ⟨p, i⟩).find =
      update db.find (t, key) (some ⟨t, ⟨p, i⟩⟩) ∧
    (db'.insertIntoBlink t key ⟨p, i⟩).view tx' =
      update (db.view tx) ⟨t, ⟨p, i⟩⟩ (some ((t, key), value)) ∧
    db.heap ⟨t, ⟨p, i⟩⟩ = none := by
  subst hx
  have habsent' : db'.index t key = none := by rw [hw.index, habsent]
  have hpages : db'.insertIntoBlink t key ⟨p, i⟩ = { db' with
      index := update db'.index t (update (db'.index t) key (some ⟨p, i⟩)) } := by
    unfold Database.insertIntoBlink
    rw [habsent']
  have hfind : (db'.insertIntoBlink t key ⟨p, i⟩).find =
      update db.find (t, key) (some ⟨t, ⟨p, i⟩⟩) := by
    rw [find_insertIntoBlink habsent', hw.find]
  have hnone : db.heap ⟨t, ⟨p, i⟩⟩ = none := by
    unfold Database.heap
    rw [if_neg fun hlive => by rw [hunused] at hlive; cases hlive.1]
  have hheap : db'.heap = update db.heap ⟨t, ⟨p, i⟩⟩ (some ((t, key), value)) := by
    rw [hw.heap, if_pos ⟨rfl, rfl⟩]
  refine ⟨?_, hfind, ?_, hnone⟩
  · rw [hpages] at hfind ⊢
    refine ⟨?_, ?_, ?_, ?_, ?_, ?_⟩
    · rw [hfind]
      show Indexed _ db'.heap
      rw [hheap]
      exact h.indexed.insert hnone (find_eq_none.2 habsent) value
    · refine (h.layout.wrote hw nofun (.inr rfl) (fun _ => rfl) hvalue ?_).withIndex _
      exact fun _ => ⟨hp, hi⟩
    · exact (h.locked.takes hw htakes rfl rfl rfl).withIndex _
    · intro q hq
      show db'.used q = true ∧ (db'.state q).valid = 1
      by_cases hqr : q = ⟨t, ⟨p, i⟩⟩
      · subst hqr
        rw [hw.used_self, hw.state_self]
        exact ⟨rfl, rfl⟩
      · rw [hw.used_of_ne hqr, hw.state_of_ne hqr]
        exact h.live q (htakes.held_of_ne hqr hq)
    · show UndoesTo heap₀ (tx'.writeSet.map toWrite) db'.heap
      rw [hset, hheap, List.map_cons]
      refine ⟨⟨value, update_self ..⟩, ?_⟩
      show UndoesTo heap₀ _ (update (update _ _ _) _ none)
      rw [update_idem, ← hnone, update_eq_self]
      exact h.undoes
    · intro w hmem
      rw [hset] at hmem
      rcases List.mem_cons.1 hmem with rfl | hmem
      · exact ⟨(htakes.mem_writeKeys _).2 (.inl rfl), nofun⟩
      · exact ⟨(htakes.mem_writeKeys _).2 (.inr (h.writes w hmem).1), (h.writes w hmem).2⟩
  · have hview : (db'.insertIntoBlink t key ⟨p, i⟩).view tx' = db'.view tx' := by
      rw [hpages]
      rfl
    rw [hview, view_takes hw htakes]
    rfl

theorem Active.unlocked_of_unused (h : Active site heap₀ db tx) (hunused : db.used r = false) :
    (db.state r).lock = UNLOCKED ∧ r ∉ tx.readKeys := by
  have hnot : ¬ (r ∈ tx.readKeys ∨ r ∈ tx.writeKeys) := by
    intro hheld
    rw [(h.live r hheld).1] at hunused
    cases hunused
  obtain ⟨hread, hwrite⟩ := not_or.1 hnot
  rcases h.locked.alone r with ⟨hlock, -, -⟩ | ⟨-, hmem, -⟩ | ⟨-, -, hmem⟩
  · exact ⟨hlock, hread⟩
  · exact absurd hmem hread
  · exact absurd hmem hwrite

/-- What `INSERT` of a new key comes to. -/
structure Inserted (site : Site) (heap₀ : RowId → Option (Key × List UInt8)) (db : Database)
    (tx : Transaction) (k : Key) (value : List UInt8) (db' : Database) (tx' : Transaction) : Prop where
  active : Active site heap₀ db' tx'
  running : tx'.aborting = tx.aborting
  placed : ∃ r, db.heap r = none ∧ db'.find = update db.find k (some r) ∧
    db'.view tx' = update (db.view tx) r (some (k, value))

theorem Active.insertNew (h : Active site heap₀ db tx) {i : Nat} (key : UInt64)
    (value : List UInt8) (habsent : db.index t key = none) (hp : p < db.numPages t)
    (hfree : State.firstFree (db.pages t p).bitmap (site.tabs t).fileHdr.numRecordsPerPage = some i)
    (hvalue : value.length = (site.tabs t).valueSize) :
    ∃ db' tx' write, db.stepOn site tx t p .executing [] (.insertNew key value) = .next (db', tx') ∧
      tx'.writeSet = (t, p, write) :: tx.writeSet ∧
      ∃ db'', db'.enterRow t p write = .next db'' ∧
        Inserted site heap₀ db tx (t, key) value db'' tx' := by
  obtain ⟨hi, hunused⟩ := firstFree_spec hfree
  obtain ⟨hlock, hread⟩ := h.unlocked_of_unused (r := ⟨t, ⟨p, i⟩⟩) hunused
  let part := tx.onPage site t p .executing []
  let s := db.onPage t p tx.startTs part
  have hread' : i ∉ part.readKeys := fun hmem => hread (mem_slotsOn.1 hmem)
  obtain ⟨s', part', hs', hstep, htakes, hset⟩ := insertNew_writes (s := s) (t := tx.startTs)
    (site.tab t p) key value rfl hfree hlock hread' (site.primaryKey t) (recordsFit site t p)
  obtain ⟨db', hdb', hw⟩ := stepOn_next tx (.insertNew key value) hs' hstep
  have htakes' := takes_rejoin htakes
  have hset' : (tx.rejoin t p part').writeSet =
      (t, p, { wtype := .insertTuple, slotNo := i, value := [], key := key }) :: tx.writeSet := by
    show part'.writeSet.map _ ++ _ = _
    rw [hset]
    rfl
  have hcopy : copyInto (s.rowStates i).value 0 value = value :=
    copyInto_of_length ((h.layout.length ⟨t, ⟨p, i⟩⟩).trans hvalue.symm)
  obtain ⟨hactive, hfind, hview, hnone⟩ := h.inserted hw htakes' hunused habsent hp hi
    (by rw [hcopy]; rfl) hvalue hset'
  refine ⟨db', tx.rejoin t p part', _, hdb', hset', _, ?_, hactive, ?_, ⟨_, hnone, hfind, hview⟩⟩
  · unfold Database.enterRow
    rw [cassert_bind (by rw [hw.index]; exact habsent)]
    rfl
  · show (tx.aborting || part'.phase == .aborting) = _
    rw [htakes.phase]
    exact Bool.or_false _

theorem Inserted.of_eq {db₁ : Database} {tx₁ : Transaction} {k : Key}
    (h : Inserted site heap₀ db₁ tx₁ k value db' tx') (hheap : db₁.heap = db.heap)
    (hfind : db₁.find = db.find) (hview : db₁.view tx₁ = db.view tx)
    (haborting : tx₁.aborting = tx.aborting) : Inserted site heap₀ db tx k value db' tx' where
  active := h.active
  running := h.running.trans haborting
  placed := by
    rw [← hheap, ← hfind, ← hview]
    exact h.placed

theorem pages_createPage (t' p : Nat) :
    (db.createPage site t).pages t' p = if t' = t ∧ p = db.numPages t then
      Database.zeroPage (site.tabs t) else db.pages t' p := by
  unfold Database.createPage Database.setPage
  by_cases ht : t' = t
  · subst ht
    simp only [update_self, update_apply, true_and]
  · simp only [update_of_ne ht, ht, false_and, if_false]

theorem state_createPage (q : RowId) :
    (db.createPage site t).state q = if q.table = t ∧ q.rid.pageNo = db.numPages t then
      rowState ((Database.zeroPage (site.tabs t)).slots q.rid.slotNo) else db.state q := by
  unfold Database.state Database.row
  rw [pages_createPage]
  split <;> rfl

theorem used_createPage (q : RowId) :
    (db.createPage site t).used q =
      if q.table = t ∧ q.rid.pageNo = db.numPages t then false else db.used q := by
  unfold Database.used
  rw [pages_createPage]
  split <;> rfl

theorem Layout.unused_of_new (h : Layout site db) {q : RowId}
    (hq : q.table = t ∧ q.rid.pageNo = db.numPages t) : db.used q = false := by
  obtain ⟨rfl, hp⟩ := hq
  cases hused : db.used q with
  | false => rfl
  | true => exact absurd (h.bounds q hused).1 (by omega)

theorem heap_createPage (h : Layout site db) (t : Nat) : (db.createPage site t).heap = db.heap := by
  funext q
  show (if (db.createPage site t).used q = true ∧ ((db.createPage site t).state q).valid = 1 then
    some ((q.table, ((db.createPage site t).state q).key), ((db.createPage site t).state q).value)
    else none) = _
  rw [used_createPage, state_createPage]
  by_cases hq : q.table = t ∧ q.rid.pageNo = db.numPages t
  · rw [if_pos hq, if_neg (by simp)]
    unfold Database.heap
    rw [h.unused_of_new hq, if_neg (by simp)]
  · rw [if_neg hq, if_neg hq]
    rfl

theorem Layout.createPage (h : Layout site db) (t : Nat) : Layout site (db.createPage site t) where
  free q hq := by
    rw [used_createPage] at hq
    rw [state_createPage]
    split
    · rfl
    · rename_i hne
      rw [if_neg hne] at hq
      exact h.free q hq
  valid q := by
    rw [state_createPage]
    split
    · exact .inl rfl
    · exact h.valid q
  valueSize q hq := by
    rw [state_createPage] at hq ⊢
    split at hq
    · have hzero : (0 : UInt8) = 1 := hq
      exact absurd hzero (by decide)
    · rename_i hne
      rw [if_neg hne]
      exact h.valueSize q hq
  length q := by
    rw [state_createPage]
    split
    · rename_i heq
      rw [heq.1]
      exact List.length_replicate
    · exact h.length q
  bounds q hq := by
    rw [used_createPage] at hq
    show _ < update db.numPages t (db.numPages t + 1) q.table ∧ _
    split at hq
    · cases hq
    · obtain ⟨hpage, hslot⟩ := h.bounds q hq
      refine ⟨?_, hslot⟩
      by_cases ht : q.table = t
      · rw [ht, update_self]
        rw [ht] at hpage
        omega
      · rw [update_of_ne ht]
        exact hpage

theorem Active.createPage (h : Active site heap₀ db tx) (t : Nat) :
    Active site heap₀ (db.createPage site t) tx ∧ (db.createPage site t).view tx = db.view tx := by
  have hfree : ∀ q : RowId, q.table = t ∧ q.rid.pageNo = db.numPages t →
      q ∉ tx.readKeys ∧ q ∉ tx.writeKeys := by
    intro q hq
    rw [← not_or]
    intro hheld
    have hused := (h.live q hheld).1
    rw [h.layout.unused_of_new hq] at hused
    cases hused
  have hheld : ∀ q, q ∈ tx.readKeys ∨ q ∈ tx.writeKeys →
      (db.createPage site t).state q = db.state q ∧
      (db.createPage site t).used q = db.used q := by
    intro q hq
    have hne : ¬ (q.table = t ∧ q.rid.pageNo = db.numPages t) := by
      intro heq
      obtain ⟨hread, hwrite⟩ := hfree q heq
      exact hq.elim hread hwrite
    rw [state_createPage, used_createPage, if_neg hne, if_neg hne]
    exact ⟨rfl, rfl⟩
  refine ⟨⟨?_, h.layout.createPage t, ⟨?_, ?_, ?_⟩, ?_, ?_, h.writes⟩, ?_⟩
  · rw [heap_createPage h.layout]
    exact h.indexed
  · intro q
    by_cases hq : q.table = t ∧ q.rid.pageNo = db.numPages t
    · rw [state_createPage, if_pos hq]
      exact .inl ⟨rfl, hfree q hq⟩
    · rw [state_createPage, if_neg hq]
      exact h.locked.alone q
  · intro q hq
    rw [(hheld q (.inr hq)).1]
    exact h.locked.time q hq
  · intro q hq
    rw [(hheld q (.inr hq)).1]
    exact h.locked.size q hq
  · intro q hq
    rw [(hheld q hq).1, (hheld q hq).2]
    exact h.live q hq
  · rw [heap_createPage h.layout]
    exact h.undoes
  · funext q
    show (if q ∈ tx.writeKeys ∧ ((db.createPage site t).state q).userInsert = 1 then none
      else (db.createPage site t).heap q) = _
    rw [heap_createPage h.layout]
    by_cases hq : q ∈ tx.writeKeys
    · rw [(hheld q (.inr hq)).1]
      rfl
    · simp only [hq, false_and, if_false, Database.view]

theorem firstFree_zeroPage (t : Nat) :
    State.firstFree ((db.createPage site t).pages t (db.numPages t)).bitmap
      (site.tabs t).fileHdr.numRecordsPerPage = some 0 := by
  have hpage : (db.createPage site t).pages t (db.numPages t) = Database.zeroPage (site.tabs t) := by
    show update db.pages t _ t _ = _
    rw [update_self, update_self]
  rw [hpage]
  unfold State.firstFree
  obtain ⟨n, hn⟩ := Nat.exists_eq_succ_of_ne_zero (site.records_pos t).ne'
  rw [hn, List.range_succ_eq_map]
  rfl

theorem Active.insertNew_full (h : Active site heap₀ db tx) (key : UInt64) (value : List UInt8)
    (hfull : State.firstFree (db.pages t p).bitmap (site.tabs t).fileHdr.numRecordsPerPage = none) :
    ∃ db' tx', db.stepOn site tx t p .executing [] (.insertNew key value) = .next (db', tx') ∧
      Active site heap₀ db' tx' ∧ tx'.aborting = tx.aborting ∧ tx'.writeSet = tx.writeSet ∧
      db'.heap = db.heap ∧ db'.index = db.index ∧ db'.view tx' = db.view tx := by
  let part := tx.onPage site t p .executing []
  let s := db.onPage t p tx.startTs part
  have hstep : PageStep s s tx.startTs 0 (s.rowStates 0) (s.page.bitmap 0) part :=
    ⟨(update_eq_self ..).symm, (update_eq_self ..).symm, onPage_txs⟩
  obtain ⟨db', hdb', hw⟩ := stepOn_next tx (.insertNew key value)
    (Dtx.insertNew_full (site.tab t p) rfl hfull) hstep
  have hw : Wrote db db' ⟨t, ⟨p, 0⟩⟩ (db.state ⟨t, ⟨p, 0⟩⟩) (db.used ⟨t, ⟨p, 0⟩⟩) := hw
  have hsame : tx.Same (tx.rejoin t p part) := same_rejoin rfl rfl rfl
  obtain ⟨hstate, hused, hheap⟩ := hw.unchanged
  refine ⟨db', _, hdb', h.unchanged hw hsame, ?_, hsame.writeSet, hheap, hw.index,
    view_congr hstate hused hsame.mem_writeKeys⟩
  exact Bool.or_false _

theorem find_congr (h : db'.index = db.index) : db'.find = db.find := by
  funext k
  show Option.map _ (db'.index _ _) = _
  rw [h]
  rfl

/-- The loop over the hints ends with the row inserted. -/
theorem Active.insertLoop (hvalue : value.length = (site.tabs t).valueSize) (hints : List Nat)
    (h : Active site heap₀ db tx) (habsent : db.index t key = none)
    (hrunning : tx.aborting = false) :
    ∃ db' tx', db.insertLoop site tx t key value hints = .next (db', tx') ∧
      Inserted site heap₀ db tx (t, key) value db' tx' := by
  induction hints generalizing db tx with
  | nil =>
    obtain ⟨hactive, hview⟩ := h.createPage t
    have hp : db.numPages t < (db.createPage site t).numPages t := by
      show _ < update db.numPages t (db.numPages t + 1) t
      rw [update_self]
      omega
    obtain ⟨db', tx', write, hstep, hset, db'', henter, hinserted⟩ :=
      hactive.insertNew key value habsent hp (firstFree_zeroPage t) hvalue
    refine ⟨db'', tx', ?_, hinserted.of_eq (heap_createPage h.layout t) rfl hview rfl⟩
    unfold Database.insertLoop
    simp only [hstep, next_bind, hset, henter]
    rfl
  | cons hint hints ih =>
    unfold Database.insertLoop
    cases hpage : db.searchFreePage t hint with
    | none => exact ih h habsent hrunning
    | some p =>
      have hp : p < db.numPages t := by
        unfold Database.searchFreePage at hpage
        split at hpage
        · cases hpage
          omega
        · cases hpage
      cases hfree : State.firstFree (db.pages t p).bitmap (site.tabs t).fileHdr.numRecordsPerPage with
      | none =>
        obtain ⟨db₁, tx₁, hstep, hactive, haborting, hset, hheap, hindex, hview⟩ :=
          h.insertNew_full key value hfree
        obtain ⟨db', tx', hloop, hinserted⟩ := ih hactive (by rw [hindex]; exact habsent)
          (haborting.trans hrunning)
        refine ⟨db', tx', ?_, hinserted.of_eq hheap (find_congr hindex) hview haborting⟩
        simp only [hstep, next_bind, hset, if_true, haborting, hrunning]
        exact hloop
      | some i =>
        obtain ⟨db₁, tx', write, hstep, hset, db', henter, hinserted⟩ :=
          h.insertNew key value habsent hp hfree hvalue
        refine ⟨db', tx', ?_, hinserted⟩
        have hlength : ¬ tx'.writeSet.length = tx.writeSet.length := by
          rw [hset, List.length_cons]
          omega
        simp only [hstep, next_bind, hset, henter]
        rw [if_neg (by rw [← hset]; exact hlength)]
        rfl

end Sql
