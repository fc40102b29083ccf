import HybridCloud.Dtx.HeapPage

/-!
# Tuples that a workload transaction writes more than once

A workload may put a tuple into `read_write_set` several times; every entry gets its own copy in
`TxExe` (src/core/dtx/dtx_exe.cc). The commit loops (`TxCommitSingle`, `Tx2PCCommitLocal`,
`Tx2PCCommitAll` and `TxPrepare`, with `TwoPCServiceImpl::Commit` in
src/compute_server/twopc_server.cc) only take the entries of `UniqueRWIndices`, which are the first of
each tuple. The transaction runs alone here, except for the waiters that get its locks.
-/

namespace Dtx.Workload

open Outcome Storage

/-- Where a tuple lies. -/
structure TupleId where
  tableId : Nat
  pageNo : Nat
  slotNo : Nat
  deriving DecidableEq

/-- An entry of `read_write_set`, with the value that the transaction writes into its copy. -/
structure Entry where
  tableId : Nat
  key : UInt64
  value : List UInt8
  releaseImme : Bool
  isFetched : Bool

/-- The tuples of all pages. -/
structure Store where
  tuples : TupleId → Tuple
  /-- The calls of `AddUpdateLog`. -/
  updateLogs : List (TupleId × List UInt8)

/-- `SYSTEM_MODE` 1, 2 and 4. -/
inductive SystemMode where
  | lazy
  | twoPC
  | mixed
  deriving DecidableEq

/-- A transaction of a workload. -/
structure DTX where
  systemMode : SystemMode
  isDistributeTxn : Bool
  node : Nat
  /-- `get_node_id_by_page_id` -/
  nodeOf : TupleId → Nat
  /-- `GetRidFromBLink`, which is also what `locked_locks_` has for the keys that are locked. -/
  rid : Nat → UInt64 → TupleId
  startTs : Nat
  commitTs : Nat
  preparedCommit : Bool
  handoff : TupleId → Option Handoff
  readWriteSet : List Entry

namespace DTX

variable (tx : DTX)

/-- The tuple of an entry. -/
def tuple (e : Entry) : TupleId := tx.rid e.tableId e.key

/-- Whether the transaction goes by two-phase commit. -/
def twoPC : Bool :=
  match tx.systemMode with
  | .lazy => false
  | .twoPC => true
  | .mixed => tx.isDistributeTxn

/-- The task of `TxExe` for an entry; none if it sets `TX_ABORTING`. -/
def fetch (s : Store) (e : Entry) : Option Store :=
  let t := tx.tuple e
  let row := s.tuples t
  if row.item.lock = UNLOCKED then
    -- `Get_2pc_Local_page` and `Get_2pc_Remote_page` are not told of `release_imme`
    let get2pc := tx.systemMode = .twoPC ∨ tx.twoPC = true ∧ tx.nodeOf t ≠ tx.node
    some { s with tuples := Function.update s.tuples t { row with item := { row.item with
      lock := if e.releaseImme = true ∧ ¬ get2pc then UNLOCKED else EXCLUSIVE_LOCKED
      timeStamp := tx.startTs
      holderNode := UInt8.ofNat tx.node
      lockOwnerNode := UInt8.ofNat (if tx.twoPC then tx.nodeOf t else tx.node) } } }
  else if row.item.lock = EXCLUSIVE_LOCKED ∧ row.item.timeStamp = tx.startTs then some s
  else none

/-- `TxExe`: all entries are fetched. -/
def txExe (s : Store) : Option (DTX × Store) := do
  let s ← (tx.readWriteSet.filter fun e => !e.isFetched).foldlM tx.fetch s
  some ({ tx with readWriteSet := tx.readWriteSet.map fun e => { e with isFetched := true } }, s)

/-- The loop of `UniqueRWIndices`, with the entries in place of their indices. -/
def unique : List TupleId → List Entry → List Entry
  | _, [] => []
  | seen, e :: es =>
    if e.isFetched = false ∨ tx.tuple e ∈ seen then unique seen es
    else e :: unique (tx.tuple e :: seen) es

/-- The entries that are the first ones of their tuples. -/
def uniqueRWIndices : List Entry := tx.unique [] tx.readWriteSet

/-- The value of the copy goes into the tuple and into the log. -/
def write (s : Store) (e : Entry) (item : DataItem) : Store where
  tuples := Function.update s.tuples (tx.tuple e)
    { s.tuples (tx.tuple e) with item := item, value := e.value }
  updateLogs := s.updateLogs ++ [(tx.tuple e, e.value)]

/-- How all loops end for a tuple, which is unlocked or handed over. -/
def commitTuple (s : Store) (e : Entry) (item : DataItem) (holderTs : Nat) : Outcome Store := do
  let item ← State.unlockTupleWithHandoff { item with commitTimeStamp := tx.commitTs } holderTs
    (tx.handoff (tx.tuple e))
  return tx.write s e item

/-- `TxCommitSingle` -/
def commitSingle (s : Store) (e : Entry) : Outcome Store :=
  let row := s.tuples (tx.tuple e)
  tx.commitTuple s e { row.item with version := tx.commitTs } tx.startTs

/-- `Tx2PCCommitLocal` -/
def commitLocal (s : Store) (e : Entry) : Outcome Store := do
  let row := s.tuples (tx.tuple e)
  cassert (tx.nodeOf (tx.tuple e) = tx.node)
  cassert (row.key = e.key ∧ row.item.lock = EXCLUSIVE_LOCKED)
  tx.commitTuple s e row.item tx.startTs

/-- `TwoPCServiceImpl::Commit` of a participant. -/
def commitRemote (prepared : Bool) (s : Store) (e : Entry) : Outcome Store := do
  let row := s.tuples (tx.tuple e)
  cassert (row.item.lock = EXCLUSIVE_LOCKED)
  cassert (prepared = true → row.item.timeStamp = tx.startTs ∧
    row.item.holderNode.toNat = tx.node ∧
    row.item.lockOwnerNode.toNat = tx.nodeOf (tx.tuple e) ∧ row.key = e.key)
  tx.commitTuple s e row.item row.item.timeStamp

/-- `TxCommit`. The participants of a distributed commit work in the order of `nodes`. -/
def txCommit (nodes : List Nat) (s : Store) : Outcome Store :=
  let entries := tx.uniqueRWIndices
  let participants := (tx.readWriteSet.map fun e => tx.nodeOf (tx.tuple e)).dedup
  if tx.twoPC = false then entries.foldlM tx.commitSingle s
  else if participants = [] ∨ participants = [tx.node] then entries.foldlM tx.commitLocal s
  else do
    await (nodes.Perm participants)
    let requests := nodes.flatMap fun node => entries.filter fun e => tx.nodeOf (tx.tuple e) = node
    requests.foldlM (tx.commitRemote (tx.preparedCommit && 1 < participants.length)) s

/-- The first entry of a tuple. -/
def firstEntry (t : TupleId) : Option Entry := tx.readWriteSet.find? (tx.tuple · = t)

/-- The last entry of a tuple. -/
def lastEntry (t : TupleId) : Option Entry := tx.readWriteSet.reverse.find? (tx.tuple · = t)

end DTX

variable {tx tx' : DTX} {s s' s₁ : Store} {e : Entry} {es : List Entry} {seen : List TupleId}

/-! ## The entries that are committed -/

theorem mem_unique (h : ∀ e ∈ es, e.isFetched = true) :
    e ∈ tx.unique seen es ↔
      tx.tuple e ∉ seen ∧ es.find? (tx.tuple · = tx.tuple e) = some e := by
  induction es generalizing seen with
  | nil => simp [DTX.unique]
  | cons x es ih =>
    have hx := h x List.mem_cons_self
    have hes := fun e he => h e (List.mem_cons_of_mem _ he)
    rw [DTX.unique, List.find?_cons]
    by_cases hseen : tx.tuple x ∈ seen
    · rw [if_pos (.inr hseen), ih hes]
      refine and_congr_right fun hne => ?_
      have hxe : tx.tuple x ≠ tx.tuple e := fun heq => hne (heq ▸ hseen)
      simp [hxe]
    · rw [if_neg (by simp [hx, hseen]), List.mem_cons, ih hes]
      by_cases hxe : tx.tuple x = tx.tuple e
      · -- later entries of the tuple are left out
        simp only [hxe, List.mem_cons, true_or, not_true, false_and, or_false, decide_true,
          Option.some.injEq]
        exact ⟨fun heq => ⟨hxe ▸ hseen, heq.symm⟩, fun heq => heq.2.symm⟩
      · have hne : e ≠ x := fun heq => hxe (heq ▸ rfl)
        simp [hxe, hne, Ne.symm hxe]

theorem nodup_unique : ((tx.unique seen es).map tx.tuple).Nodup ∧
    ∀ t ∈ (tx.unique seen es).map tx.tuple, t ∉ seen := by
  induction es generalizing seen with
  | nil => simp [DTX.unique]
  | cons x es ih =>
    rw [DTX.unique]
    split
    · exact ih
    · rename_i hx
      obtain ⟨hnd, hseen⟩ := @ih (tx.tuple x :: seen)
      simp only [not_or] at hx
      refine ⟨List.nodup_cons.2 ⟨fun hmem => hseen _ hmem List.mem_cons_self, hnd⟩, ?_⟩
      intro t ht
      rcases List.mem_cons.1 ht with rfl | ht
      · exact hx.2
      · exact fun hmem => hseen t ht (List.mem_cons_of_mem _ hmem)

theorem unique_sublist : (tx.unique seen es).Sublist es := by
  induction es generalizing seen with
  | nil => exact List.Sublist.refl _
  | cons x es ih =>
    rw [DTX.unique]
    split
    · exact ih.cons x
    · exact ih.cons_cons x

/-! ## The commit loops -/

/-- What a commit loop has done when it has gone over `es`. -/
structure Committed (tx : DTX) (es : List Entry) (s s' : Store) : Prop where
  value : ∀ e ∈ es, (s'.tuples (tx.tuple e)).value = e.value
  other : ∀ t ∉ es.map tx.tuple, s'.tuples t = s.tuples t
  logs : s'.updateLogs = s.updateLogs ++ es.map fun e => (tx.tuple e, e.value)

theorem commitTuple_next {item : DataItem} {holderTs : Nat}
    (h : tx.commitTuple s e item holderTs = .next s') : ∃ item, s' = tx.write s e item := by
  simp only [DTX.commitTuple, bind_eq_next, pure_def, next.injEq] at h
  obtain ⟨item, -, rfl⟩ := h
  exact ⟨item, rfl⟩

theorem committed_of_foldlM {f : Store → Entry → Outcome Store}
    (hf : ∀ s e s', f s e = .next s' →
      ∃ item holderTs, tx.commitTuple s e item holderTs = .next s') :
    ∀ {es s}, (es.map tx.tuple).Nodup → es.foldlM f s = .next s' → Committed tx es s s' := by
  intro es
  induction es with
  | nil =>
    intro s _ h
    obtain rfl := next.inj h
    exact ⟨nofun, fun _ _ => rfl, by simp⟩
  | cons e es ih =>
    intro s hnd h
    rw [List.foldlM_cons, bind_eq_next] at h
    obtain ⟨s₁, he, h⟩ := h
    obtain ⟨item, holderTs, he⟩ := hf s e s₁ he
    obtain ⟨item, rfl⟩ := commitTuple_next he
    rw [List.map_cons, List.nodup_cons] at hnd
    obtain ⟨hvalue, hother, hlogs⟩ := ih hnd.2 h
    refine ⟨fun x hx => ?_, fun t ht => ?_, ?_⟩
    · rcases List.mem_cons.1 hx with rfl | hx
      · rw [hother _ hnd.1]
        simp [DTX.write]
      · exact hvalue x hx
    · rw [List.map_cons, List.mem_cons, not_or] at ht
      rw [hother t ht.2]
      exact Function.update_of_ne ht.1 ..
    · rw [hlogs]
      simp [DTX.write]

/-- However it commits, the transaction commits the entries of `UniqueRWIndices`, each of them once. -/
theorem txCommit_spec {nodes : List Nat} (h : tx.txCommit nodes s = .next s') :
    ∃ es, (es.map tx.tuple).Nodup ∧ (∀ e, e ∈ es ↔ e ∈ tx.uniqueRWIndices) ∧
      Committed tx es s s' := by
  have hnd : (tx.uniqueRWIndices.map tx.tuple).Nodup := nodup_unique.1
  simp only [DTX.txCommit] at h
  split at h
  · exact ⟨_, hnd, fun e => .rfl, committed_of_foldlM (fun _ _ _ h => ⟨_, _, h⟩) hnd h⟩
  · split at h
    · refine ⟨_, hnd, fun e => .rfl, committed_of_foldlM (fun s e s' h => ?_) hnd h⟩
      simp only [DTX.commitLocal, bind_eq_next] at h
      obtain ⟨-, -, -, -, h⟩ := h
      exact ⟨_, _, h⟩
    · simp only [bind_eq_next, await_eq_next] at h
      obtain ⟨-, hperm, h⟩ := h
      have hnodes : nodes.Nodup := hperm.nodup_iff.2 (List.nodup_dedup _)
      have hreq : ((nodes.flatMap fun node => tx.uniqueRWIndices.filter fun e =>
          tx.nodeOf (tx.tuple e) = node).map tx.tuple).Nodup := by
        rw [List.map_flatMap, List.nodup_flatMap]
        refine ⟨fun node _ => hnd.sublist (List.filter_sublist.map _), ?_⟩
        refine hnodes.imp fun {a b} hab t hta htb => ?_
        simp only [List.mem_map, List.mem_filter, decide_eq_true_eq] at hta htb
        obtain ⟨x, ⟨-, rfl⟩, rfl⟩ := hta
        obtain ⟨y, ⟨-, rfl⟩, hxy⟩ := htb
        exact hab (by rw [hxy])
      refine ⟨_, hreq, fun e => ?_, committed_of_foldlM (fun s e s' h => ?_) hreq h⟩
      swap
      · simp only [DTX.commitRemote, bind_eq_next] at h
        obtain ⟨-, -, -, -, h⟩ := h
        exact ⟨_, _, h⟩
      simp only [List.mem_flatMap, List.mem_filter, decide_eq_true_eq]
      constructor
      · rintro ⟨_, -, he, -⟩
        exact he
      · intro he
        have hmem : e ∈ tx.readWriteSet := unique_sublist.subset he
        exact ⟨_, hperm.mem_iff.2 (List.mem_dedup.2 (List.mem_map.2 ⟨e, hmem, rfl⟩)), he, rfl⟩

/-! ## Execution and commit -/

theorem fetch_other (h : tx.fetch s e = some s') :
    s'.updateLogs = s.updateLogs ∧ ∀ t, tx.tuple e ≠ t → s'.tuples t = s.tuples t := by
  simp only [DTX.fetch] at h
  split at h
  · obtain rfl := Option.some.inj h
    exact ⟨rfl, fun t hne => Function.update_of_ne (Ne.symm hne) ..⟩
  · split at h
    · obtain rfl := Option.some.inj h
      exact ⟨rfl, fun _ _ => rfl⟩
    · cases h

theorem foldlM_fetch : ∀ {es : List Entry} {s : Store}, es.foldlM tx.fetch s = some s' →
    s'.updateLogs = s.updateLogs ∧ ∀ t ∉ es.map tx.tuple, s'.tuples t = s.tuples t := by
  intro es
  induction es with
  | nil =>
    intro s h
    obtain rfl := Option.some.inj h
    exact ⟨rfl, fun _ _ => rfl⟩
  | cons e es ih =>
    intro s h
    rw [List.foldlM_cons, Option.bind_eq_bind, Option.bind_eq_some_iff] at h
    obtain ⟨s₁, he, h⟩ := h
    obtain ⟨hlogs, hother⟩ := fetch_other he
    obtain ⟨hlogs', hother'⟩ := ih h
    refine ⟨hlogs'.trans hlogs, fun t ht => ?_⟩
    rw [List.map_cons, List.mem_cons, not_or] at ht
    rw [hother' t ht.2, hother t (Ne.symm ht.1)]

theorem exists_firstEntry {t : TupleId} :
    (∃ e, tx.firstEntry t = some e) ↔ t ∈ tx.readWriteSet.map tx.tuple := by
  rw [← Option.isSome_iff_exists, DTX.firstEntry, List.find?_isSome, List.mem_map]
  simp

/-- Every tuple of the set is written and logged once, with the value of its first entry. This is the
value of its last entry if and only if the two are the same. -/
theorem committed_value_iff {nodes : List Nat} {s₂ : Store}
    (exe : tx.txExe s = some (tx', s₁)) (commit : tx'.txCommit nodes s₁ = .next s₂) :
    (∃ logged, s₂.updateLogs = s.updateLogs ++ logged ∧ (logged.map Prod.fst).Nodup ∧
      ∀ t, t ∈ logged.map Prod.fst ↔ t ∈ tx.readWriteSet.map tx.tuple) ∧
    (∀ t ∉ tx.readWriteSet.map tx.tuple, s₂.tuples t = s.tuples t) ∧
    ((∀ t e, tx.lastEntry t = some e → (s₂.tuples t).value = e.value) ↔
      ∀ t e e', tx.firstEntry t = some e → tx.lastEntry t = some e' → e.value = e'.value) := by
  simp only [DTX.txExe, Option.bind_eq_bind, Option.bind_eq_some_iff, Option.some.injEq,
    Prod.mk.injEq] at exe
  obtain ⟨_, hfetch, rfl, rfl⟩ := exe
  obtain ⟨hlogs₁, hother₁⟩ := foldlM_fetch hfetch
  obtain ⟨es, hnd, hmem, hvalue, hother, hlogs⟩ := txCommit_spec commit
  have hfirst : ∀ t e, tx.firstEntry t = some e → { e with isFetched := true } ∈ es ∧
      tx.tuple e = t := by
    intro t e he
    have ht : tx.tuple e = t := by simpa using List.find?_some he
    refine ⟨(hmem _).2 ((mem_unique ?_).2 ⟨List.not_mem_nil, ?_⟩), ht⟩
    · intro x hx
      obtain ⟨y, -, rfl⟩ := List.mem_map.1 hx
      rfl
    · subst ht
      rw [List.find?_map]
      exact congrArg (Option.map _) he
  have hset : ∀ t, t ∈ es.map tx.tuple ↔ t ∈ tx.readWriteSet.map tx.tuple := by
    intro t
    constructor
    · intro ht
      obtain ⟨x, hx, rfl⟩ := List.mem_map.1 ht
      obtain ⟨y, hy, rfl⟩ := List.mem_map.1 (unique_sublist.subset ((hmem x).1 hx))
      exact List.mem_map.2 ⟨y, hy, rfl⟩
    · intro ht
      obtain ⟨e, he⟩ := exists_firstEntry.2 ht
      obtain ⟨hes, rfl⟩ := hfirst t e he
      exact List.mem_map.2 ⟨_, hes, rfl⟩
  have hwritten : ∀ t e, tx.firstEntry t = some e → (s₂.tuples t).value = e.value := by
    intro t e he
    obtain ⟨hes, rfl⟩ := hfirst t e he
    exact hvalue { e with isFetched := true } hes
  refine ⟨⟨_, hlogs.trans (by rw [hlogs₁]), ?_, fun t => ?_⟩, fun t ht => ?_, fun h t e e' he he' => ?_,
    fun h t e he => ?_⟩
  · rw [List.map_map]
    exact hnd
  · rw [List.map_map]
    exact hset t
  · refine (hother t fun hes => ht ((hset t).1 hes)).trans (hother₁ t fun hes => ht ?_)
    exact (List.filter_sublist.map _).subset hes
  · rw [← hwritten t e he, h t e' he']
  · obtain ⟨x, hx⟩ : ∃ x, tx.firstEntry t = some x := by
      refine exists_firstEntry.2 (List.mem_map.2 ⟨e, ?_, by simpa using List.find?_some he⟩)
      exact List.mem_reverse.1 (List.mem_of_find?_eq_some he)
    rw [hwritten t x hx, h t x e hx he]

/-! ## Two entries for one tuple -/

/-- All tuples are the same at first. -/
def row : TupleId → Tuple := fun _ => { key := 7, item := DataItem.init, value := [0] }

/-- A transaction that writes tuple 7 of table 1 twice. -/
def twice (value : List UInt8) : DTX where
  systemMode := .lazy
  isDistributeTxn := false
  node := 0
  nodeOf _ := 0
  rid tableId _ := ⟨tableId, 0, 0⟩
  startTs := 1
  commitTs := 2
  preparedCommit := false
  handoff _ := none
  readWriteSet := [⟨1, 7, [1], false, false⟩, ⟨1, 7, value, false, false⟩]

theorem committed_value_iff_same : ∃ tx s₁ s₂, (twice [1]).txExe ⟨row, []⟩ = some (tx, s₁) ∧
    tx.txCommit [] s₁ = .next s₂ ∧ ∀ t e, (twice [1]).lastEntry t = some e →
      (s₂.tuples t).value = e.value := by
  obtain ⟨tx, s₁, exe⟩ : ∃ tx s₁, (twice [1]).txExe ⟨row, []⟩ = some (tx, s₁) := ⟨_, _, rfl⟩
  obtain ⟨s₂, commit⟩ : ∃ s₂, tx.txCommit [] s₁ = .next s₂ := by
    obtain ⟨rfl, rfl⟩ := Prod.mk.inj (Option.some.inj exe)
    exact ⟨_, rfl⟩
  refine ⟨tx, s₁, s₂, exe, commit, (committed_value_iff exe commit).2.2.2 ?_⟩
  intro t e e' he he'
  have hvalue : ∀ x ∈ (twice [1]).readWriteSet, x.value = [1] := by decide
  rw [hvalue e (List.mem_of_find?_eq_some he),
    hvalue e' (List.mem_reverse.1 (List.mem_of_find?_eq_some he'))]

/-- The second value is lost. -/
theorem first_write_wins : ∃ tx s₁ s₂, (twice [2]).txExe ⟨row, []⟩ = some (tx, s₁) ∧
    tx.txCommit [] s₁ = .next s₂ ∧ (s₂.tuples ⟨1, 0, 0⟩).value = [1] ∧
    (twice [2]).lastEntry ⟨1, 0, 0⟩ = some ⟨1, 7, [2], false, false⟩ :=
  ⟨_, _, _, rfl, rfl, rfl, rfl⟩

end Dtx.Workload
