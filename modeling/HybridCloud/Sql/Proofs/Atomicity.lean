import HybridCloud.Sql.Proofs.Ending

/-!
# SQL transactions are atomic

Every transaction ends; after a commit the visible rows are what its operations make of the rows
before, and after a rollback they are the rows before. What does not work is a transaction that
inserts a key again after it has deleted it: `DeleteExecutor` leaves `valid` as it is until the
commit, and `InsertExecutor` takes the row for one that is there and aborts.
-/

namespace Sql

open Outcome Storage Dtx KeyedHeap Function

variable {site : Site} {db db' : Database} {tx tx' : Transaction} {r : RowId}
  {heap₀ : RowId → Option (Key × List UInt8)}

/-- The transaction sees the rows `m`, and has deleted the keys `deleted`. -/
structure Sees (db : Database) (tx : Transaction) (m : Key → Option (List UInt8))
    (deleted : List Key) : Prop where
  rows : KeyedHeap.rows db.find (db.view tx) = m
  found : ∀ k, (db.find k).isSome = true ↔ (m k).isSome = true ∨ k ∈ deleted

variable {m : Key → Option (List UInt8)} {deleted : List Key}

/-- An operation has been executed: the transaction goes on with the rows that the operation means, or
it aborts because of a key that is there. -/
inductive Executed (db : Database) (tx : Transaction) (m : Key → Option (List UInt8))
    (deleted : List Key) (change : Change Key (List UInt8)) : Prop
  | goesOn {m' : Key → Option (List UInt8)} {deleted' : List Key} (running : tx.aborting = false)
      (made : change.apply m = some m') (sees : Sees db tx m' deleted')
      (kept : ∀ changes, reinserts deleted (change :: changes) = reinserts deleted' changes)
  | aborts (aborting : tx.aborting = true)
      (present : change.apply m = none ∨
        ∀ changes, reinserts deleted (change :: changes) = true)

theorem length_setColumns {size : Nat} (setClauses : List (Nat × List UInt8))
    (hfits : ∀ c ∈ setClauses, c.1 + c.2.length ≤ size) (value : List UInt8)
    (hvalue : value.length = size) : (setColumns setClauses value).length = size := by
  induction setClauses generalizing value with
  | nil => exact hvalue
  | cons c cs ih =>
    refine ih (fun c' hc' => hfits c' (List.mem_cons_of_mem _ hc')) _ ?_
    have hc := hfits c List.mem_cons_self
    unfold copyInto
    simp only [List.length_append, List.length_take, List.length_drop]
    omega

theorem view_eq_some (hseen : db.view tx r ≠ none) :
    db.view tx r = some ((r.table, (db.state r).key), (db.state r).value) := by
  unfold Database.view at hseen ⊢
  split at hseen
  · exact absurd rfl hseen
  · rename_i hkept
    rw [if_neg hkept]
    obtain ⟨x, hx⟩ := Option.ne_none_iff_exists'.1 hseen
    rw [hx, (heap_eq_some.1 hx).2]

/-- `UPDATE` and `DELETE` skip the rows that the transaction does not see. -/
theorem skips_iff (h : Layout site db) :
    ((db.state r).valid = 0 ∨
      (if r ∈ tx.writeKeys then (db.state r).userInsert = 1 else true = false)) ↔
    db.view tx r = none := by
  rw [view_eq_none_iff h]
  refine or_congr_right ?_
  split
  · rename_i hmem
    exact (and_iff_right hmem).symm
  · rename_i hmem
    exact iff_of_false (by decide) fun hdeleted => hmem hdeleted.1

theorem Sees.skips (hsees : Sees db tx m deleted) (hrunning : tx'.aborting = false)
    (hfind : db'.find = db.find) (hview : db'.view tx' = db.view tx) :
    Executed db' tx' m deleted .nothing := by
  refine .goesOn hrunning rfl ⟨?_, ?_⟩ fun _ => rfl
  · rw [hfind, hview]
    exact hsees.rows
  · rw [hfind]
    exact hsees.found

section

variable (h : Active site heap₀ db tx) (hrunning : tx.aborting = false)
include h hrunning

theorem Active.update (hsees : Sees db tx m deleted) (setClauses : List (Nat × List UInt8))
    (hfits : (RowOp.update r setClauses).Fits site) :
    ∃ db' tx', db.exec site tx (.update r setClauses) = .next (db', tx') ∧
      Active site heap₀ db' tx' ∧
      Executed db' tx' m deleted (db.meaning tx (.update r setClauses)) := by
  obtain ⟨db', tx', hstep, hactive, haborting, hfind, hview⟩ := h.writeRow (r := r)
    (.update r.rid.slotNo true setClauses) true .updateTuple 0 (setColumns setClauses)
    (fun _ _ => rfl) (.inl rfl) (length_setColumns setClauses hfits)
  refine ⟨db', tx', hstep, hactive, ?_⟩
  have hrunning' := haborting.trans hrunning
  simp only [skips_iff h.layout] at hview
  by_cases hseen : db.view tx r = none
  · rw [if_pos hseen] at hview
    simp only [Database.meaning, hseen]
    exact hsees.skips hrunning' hfind hview
  · rw [if_neg hseen, if_neg (by decide)] at hview
    have hrow := view_eq_some hseen
    simp only [Database.meaning, hrow]
    have hvalue : m (r.table, (db.state r).key) = some (db.state r).value := by
      rw [← hsees.rows]
      exact (rows_eq_some h.indexed within_view).2 ⟨r, hrow⟩
    refine .goesOn hrunning' rfl ⟨?_, ?_⟩ fun _ => rfl
    · rw [hfind, hview, rows_update h.indexed within_view hrow, hsees.rows, hvalue]
      rfl
    · intro k
      rw [hfind, hsees.found]
      refine or_congr_left ?_
      by_cases hk : k = (r.table, (db.state r).key)
      · subst hk
        rw [update_self, Option.isSome_map]
      · rw [update_of_ne hk]

theorem Active.delete (hsees : Sees db tx m deleted) (r : RowId) :
    ∃ db' tx', db.exec site tx (.delete r) = .next (db', tx') ∧ Active site heap₀ db' tx' ∧
      Executed db' tx' m deleted (db.meaning tx (.delete r)) := by
  obtain ⟨db', tx', hstep, hactive, haborting, hfind, hview⟩ := h.writeRow (r := r)
    (.delete r.rid.slotNo true) true .deleteTuple 1 id (fun _ _ => rfl) (.inr ⟨rfl, rfl⟩)
    fun _ hvalue => hvalue
  refine ⟨db', tx', hstep, hactive, ?_⟩
  have hrunning' := haborting.trans hrunning
  simp only [skips_iff h.layout] at hview
  by_cases hseen : db.view tx r = none
  · rw [if_pos hseen] at hview
    simp only [Database.meaning, hseen]
    exact hsees.skips hrunning' hfind hview
  · rw [if_neg hseen, if_pos trivial] at hview
    have hrow := view_eq_some hseen
    simp only [Database.meaning, hrow]
    refine .goesOn hrunning' rfl ⟨?_, ?_⟩ fun _ => rfl
    · rw [hfind, hview, rows_update h.indexed within_view hrow, hsees.rows]
      rfl
    · -- the B-link tree still has the key of the row
      intro k
      rw [hfind, hsees.found, List.mem_cons]
      by_cases hk : k = (r.table, (db.state r).key)
      · subst hk
        rw [← hsees.rows, (rows_eq_some h.indexed within_view).2 ⟨r, hrow⟩]
        exact iff_of_true (.inl rfl) (.inr (.inl rfl))
      · rw [update_of_ne hk]
        exact or_congr_right (or_iff_right hk).symm

theorem Active.insert
    (hsees : Sees db tx m deleted) (t : Nat) (key : UInt64) (value : List UInt8) (hints : List Nat)
    (hfits : (RowOp.insert t key value hints).Fits site) :
    ∃ db' tx', db.exec site tx (.insert t key value hints) = .next (db', tx') ∧
      Active site heap₀ db' tx' ∧
      Executed db' tx' m deleted (db.meaning tx (.insert t key value hints)) := by
  show ∃ db' tx', db.insert site tx t key value hints = .next (db', tx') ∧ _ ∧
    Executed db' tx' m deleted (.insert (t, key) value)
  have hfound := hsees.found (t, key)
  unfold Database.insert
  cases hindex : db.index t key with
  | some rid =>
    obtain ⟨db', tx', hstep, hactive, haborting⟩ := h.insertExisting value hindex
    refine ⟨db', tx', hstep, hactive, .aborts haborting ?_⟩
    rw [find_of_index hindex] at hfound
    rcases hfound.1 rfl with hrow | hdeleted
    · exact .inl (if_pos hrow)
    · exact .inr (reinserts_of_mem hdeleted value)
  | none =>
    obtain ⟨db', tx', hstep, hinserted⟩ := h.insertLoop hfits (hints.take 2) hindex hrunning
    obtain ⟨r, hfree, hfind, hview⟩ := hinserted.placed
    rw [find_eq_none.2 hindex] at hfound
    obtain ⟨hrow, hdeleted⟩ := not_or.1 (mt hfound.2 nofun)
    refine ⟨db', tx', hstep, hinserted.active,
      .goesOn (hinserted.running.trans hrunning) (if_neg hrow) ⟨?_, ?_⟩
        (reinserts_of_not_mem hdeleted value)⟩
    · rw [hfind, hview, rows_insert h.indexed hfree, hsees.rows]
    · intro k
      rw [hfind]
      by_cases hk : k = (t, key)
      · subst hk
        rw [update_self, update_self]
        exact iff_of_true rfl (.inl rfl)
      · rw [update_of_ne hk, update_of_ne hk]
        exact hsees.found k

theorem Active.exec (hsees : Sees db tx m deleted) (op : RowOp) (hfits : op.Fits site) :
    ∃ db' tx', db.exec site tx op = .next (db', tx') ∧ Active site heap₀ db' tx' ∧
      Executed db' tx' m deleted (db.meaning tx op) := by
  cases op with
  | insert t key value hints => exact h.insert hrunning hsees t key value hints hfits
  | update r setClauses => exact h.update hrunning hsees setClauses hfits
  | delete r => exact h.delete hrunning hsees r

end

/-- The operations of a transaction: either all of them are made, or one of them aborts it. -/
theorem Active.execAll (ops : List RowOp) (hfits : ∀ op ∈ ops, op.Fits site)
    (h : Active site heap₀ db tx) (hrunning : tx.aborting = false) (hsees : Sees db tx m deleted) :
    ∃ db' tx' changes, Database.execAll site ops db tx = .next (db', tx', changes) ∧
      Active site heap₀ db' tx' ∧
      if tx'.aborting = true then applyAll m changes = none ∨ reinserts deleted changes = true
      else applyAll m changes = some (KeyedHeap.rows db'.find (db'.view tx')) ∧
        reinserts deleted changes = false := by
  induction ops generalizing db tx m deleted with
  | nil =>
    refine ⟨db, tx, [], rfl, h, ?_⟩
    rw [if_neg (by rw [hrunning]; decide), hsees.rows]
    exact ⟨rfl, rfl⟩
  | cons op ops ih =>
    obtain ⟨db₁, tx₁, hstep, h₁, hexecuted⟩ := h.exec hrunning hsees op (hfits op List.mem_cons_self)
    unfold Database.execAll
    simp only [hstep, next_bind]
    rcases hexecuted with ⟨hrunning₁, hmade, hsees₁, hkept⟩ | ⟨haborting, hpresent⟩
    · obtain ⟨db', tx', changes, hall, h', hend⟩ := ih
        (fun op' hop' => hfits op' (List.mem_cons_of_mem _ hop')) h₁ hrunning₁ hsees₁
      refine ⟨db', tx', db.meaning tx op :: changes, ?_, h', ?_⟩
      · rw [if_neg (by rw [hrunning₁]; decide), hall]
        rfl
      · rw [applyAll_of_some hmade, hkept]
        exact hend
    · refine ⟨db₁, tx₁, [db.meaning tx op], if_pos haborting, h₁, ?_⟩
      rw [if_pos haborting]
      rcases hpresent with hnone | hagain
      · exact .inl (applyAll_of_none hnone [])
      · exact .inr (hagain [])

theorem Database.Consistent.begin (h : db.Consistent site) (startTs : Nat) :
    Active site db.heap db (.begin startTs) ∧ Sees db (.begin startTs) db.rows [] := by
  refine ⟨⟨h.indexed, ⟨h.free, h.valid, h.valueSize, h.length, h.bounds⟩, ⟨?_, nofun, nofun⟩, ?_, rfl,
    nofun⟩, ⟨?_, ?_⟩⟩
  · intro r
    exact .inl ⟨h.unlocked r, List.not_mem_nil, List.not_mem_nil⟩
  · rintro r (hmem | hmem) <;> exact absurd hmem List.not_mem_nil
  · rfl
  · intro k
    rw [or_iff_left List.not_mem_nil]
    constructor
    · intro hsome
      obtain ⟨r, hr⟩ := Option.isSome_iff_exists.1 hsome
      obtain ⟨v, hv⟩ := (h.indexed k r).1 hr
      exact Option.isSome_iff_exists.2 ⟨v, (rows_eq_some h.indexed (Within.refl _)).2 ⟨r, hv⟩⟩
    · intro hsome
      obtain ⟨v, hv⟩ := Option.isSome_iff_exists.1 hsome
      obtain ⟨r, hr⟩ := (rows_eq_some h.indexed (Within.refl _)).1 hv
      exact Option.isSome_iff_exists.2 ⟨r, (h.indexed k r).2 ⟨v, hr⟩⟩

end Sql
