import HybridCloud.GPLM.AbstractDirectory

/-!
# The abstract directory stays consistent

Every call of the directory keeps `AbsDirectory.WF`, provided that its caller respects the protocol.
-/

namespace GPLM.AbsDirectory

variable {N : Nat} {a : AbsDirectory N}

theorem init_wf : (init : AbsDirectory N).WF where
  holders_nodup := List.nodup_nil
  excl_single := by simp [init]
  queue_nodup := by simp [init, queued]
  round := by simp [init]
  front_reader := by simp [init]
  newest_mem := by simp [init]
  newest_none _ := rfl

variable {n : NodeId N}

theorem exists_mem_ne {l : List (NodeId N)} (hnd : l.Nodup) (hne : l ≠ []) (hn : l ≠ [n]) :
    ∃ m ∈ l, m ≠ n := by
  by_contra hall
  push Not at hall
  have hrep : l = List.replicate l.length n := List.eq_replicate_of_mem hall
  have hlen : l.length ≤ 1 := List.nodup_replicate.1 (hrep ▸ hnd)
  have hpos : 0 < l.length := List.length_pos_iff.2 hne
  have hone : l.length = 1 := by omega
  rw [hone] at hrep
  exact hn hrep

theorem holders_length_le (h : a.WF) : a.holders.length ≤ N := by
  simpa using List.Nodup.length_le_card h.holders_nodup

/-- The lock word shows `EXCLUSIVE_LOCKED` only for an exclusive holder: the number of readers never
gets that large. -/
theorem lockWord_eq_exclusive (hN : N < EXCLUSIVE_LOCKED) (h : a.WF) :
    a.lockWord = EXCLUSIVE_LOCKED ↔ a.excl = true := by
  have hle := holders_length_le h
  cases hx : a.excl <;> simp [lockWord, hx]
  omega

theorem lockWord_eq_zero (h : a.WF) : a.lockWord = 0 ↔ a.holders = [] := by
  cases hx : a.excl with
  | false => simp [lockWord, hx]
  | true =>
    obtain ⟨m, hm⟩ := h.excl_single hx
    simp [lockWord, hx, hm, EXCLUSIVE_LOCKED]

variable {r : LRRequest N}

/-- `enqueue` with an empty queue is what `SetComputenodePending` is called with. -/
theorem enqueue_wf (h : a.WF) (hnq : r.nodeId ∉ a.queued)
    (hother : a.queue = [] → ∃ m ∈ a.holders, m ≠ r.nodeId)
    (hreader : a.queue = [] → r.xlock = false → a.excl = true) : (a.enqueue r).1.WF := by
  refine { h with queue_nodup := ?_, round := ?_, front_reader := ?_ }
  · simpa [enqueue, queued, List.nodup_append] using
      ⟨h.queue_nodup, fun q hq he => hnq (he ▸ List.mem_map_of_mem hq)⟩
  · intro r' rs' hq
    cases hqe : a.queue with
    | nil =>
      simp only [enqueue, hqe, List.nil_append, List.cons.injEq] at hq
      obtain ⟨m, hm, hne⟩ := hother hqe
      exact ⟨m, hm, hq.1 ▸ hne⟩
    | cons q qs =>
      simp only [enqueue, hqe, List.cons_append, List.cons.injEq] at hq
      exact hq.1 ▸ h.round hqe
  · intro r' rs' hq hr
    cases hqe : a.queue with
    | nil =>
      simp only [enqueue, hqe, List.nil_append, List.cons.injEq] at hq
      exact hreader hqe (hq.1 ▸ hr)
    | cons q qs =>
      simp only [enqueue, hqe, List.cons_append, List.cons.injEq] at hq
      exact h.front_reader hqe (hq.1 ▸ hr)

theorem lockShared_wf (h : a.WF) (hnq : n ∉ a.queued) (hnh : a.queue = [] → n ∉ a.holders) :
    (a.lockShared n).1.WF := by
  by_cases hc : a.excl = false ∧ a.queue = []
  · have hn := hnh hc.2
    simp only [lockShared, hc, and_self, ite_true]
    refine { holders_nodup := ?_, excl_single := by simp, queue_nodup := by simp [queued]
             round := by simp, front_reader := by simp, newest_mem := ?_, newest_none := by simp }
    · simpa [List.nodup_append] using ⟨h.holders_nodup, fun m hm he => hn (he ▸ hm)⟩
    · intro m hm
      cases hw : a.newest with
      | none => simp_all
      | some k =>
        have := h.newest_mem hw
        simp_all
  · simp only [lockShared, hc, ite_false]
    refine enqueue_wf h hnq (fun hq => ?_) fun hq _ => ?_
    · obtain ⟨m, hm⟩ := h.excl_single (by simpa [hq] using hc)
      exact ⟨m, by simp [hm], fun he => hnh hq (by simp_all)⟩
    · simpa [hq] using hc

theorem lockExclusive_wf (h : a.WF) (hnq : n ∉ a.queued)
    (hnh : a.queue = [] → a.excl = true → n ∉ a.holders) : (a.lockExclusive n).1.WF := by
  by_cases h0 : a.queue = [] ∧ a.holders = []
  · simp only [lockExclusive, h0, and_self, ite_true]
    exact { holders_nodup := by simp, excl_single := by simp, queue_nodup := by simp [queued]
            round := by simp, front_reader := by simp, newest_mem := by simp
            newest_none := by simp }
  · by_cases h1 : a.queue = [] ∧ a.excl = false ∧ a.holders = [n]
    · simp only [lockExclusive, h1, and_self, ite_true]
      exact { holders_nodup := by simp, excl_single := by simp, queue_nodup := by simp [queued]
              round := by simp, front_reader := by simp
              newest_mem := fun hm => by simpa [h1] using h.newest_mem hm
              newest_none := fun hm => by simpa [h1] using h.newest_none hm }
    · simp only [lockExclusive, h0, h1, ite_false]
      refine enqueue_wf h hnq (fun hq => ?_) (by simp)
      refine exists_mem_ne h.holders_nodup (fun he => h0 ⟨hq, he⟩) fun hn => ?_
      cases hx : a.excl with
      | false => exact h1 ⟨hq, hx, hn⟩
      | true => exact hnh hq hx (by simp [hn])

/-- An exclusive lock that is granted at once never needs a push: either nobody has the page or the
asking node has it. -/
theorem lockExclusive_not_pushFrom (n m : NodeId N) : (a.lockExclusive n).2.2 ≠ .pushFrom m := by
  by_cases h0 : a.queue = [] ∧ a.holders = []
  · simp [lockExclusive, h0]
  · by_cases h1 : a.queue = [] ∧ a.excl = false ∧ a.holders = [n]
    · simp [lockExclusive, h1]
    · simp [lockExclusive, h0, h1]

theorem grant_wf {x : Bool} {first : NodeId N} {others : List (NodeId N)}
    {queue : List (LRRequest N)} (hnd : (first :: others).Nodup) (hx : x = true → others = [])
    (hq : (queue.map (·.nodeId)).Nodup) (hfirst : ∀ r ∈ queue, first ≠ r.nodeId)
    (hreader : x = false → ∀ r ∈ queue, r.xlock = true) :
    (a.grant x first others queue).1.WF where
  holders_nodup := hnd
  excl_single he := ⟨first, by simp [grant, hx he]⟩
  queue_nodup := hq
  round {r rs} he := ⟨first, by simp [grant], hfirst r (by simp_all [grant])⟩
  front_reader {r rs} he hr := by
    by_contra hne
    have hxf : x = false := by simpa [grant] using hne
    have := hreader hxf r (by simp_all [grant])
    simp [hr] at this
  newest_mem he := by simp_all [grant]
  newest_none he := by simp [grant] at he

variable {rs : List (LRRequest N)}

theorem granted_nodup (h : a.WF) (hq : a.queue = r :: rs) : (granted r rs).Nodup := by
  have hnd := h.queue_nodup
  simp only [queued, hq, List.map_cons, List.nodup_cons] at hnd
  cases hx : r.xlock with
  | true => simp [granted, hx]
  | false =>
    have hsub : ((rs.filter fun q => !q.xlock).map (·.nodeId)).Sublist (rs.map (·.nodeId)) :=
      List.Sublist.map _ List.filter_sublist
    simp only [granted, hx, Bool.false_eq_true, ite_false, List.nodup_cons]
    exact ⟨fun hmem => hnd.1 (hsub.subset hmem), hnd.2.sublist hsub⟩

theorem kept_sublist (r : LRRequest N) (rs : List (LRRequest N)) : (kept r rs).Sublist rs := by
  cases hx : r.xlock <;> simp [kept, hx]

theorem front_ne_of_mem_tail (h : a.WF) (hq : a.queue = r :: rs) {q : LRRequest N} (hmem : q ∈ rs) :
    r.nodeId ≠ q.nodeId := by
  have hnd := h.queue_nodup
  simp only [queued, hq, List.map_cons, List.nodup_cons] at hnd
  exact fun he => hnd.1 (he ▸ List.mem_map_of_mem hmem)

theorem tail_nodup (h : a.WF) (hq : a.queue = r :: rs) : (rs.map (·.nodeId)).Nodup := by
  have hnd := h.queue_nodup
  simp only [queued, hq, List.map_cons, List.nodup_cons] at hnd
  exact hnd.2

theorem grant_kept_wf (h : a.WF) (hq : a.queue = r :: rs) :
    (a.grant r.xlock r.nodeId (granted r rs).tail (kept r rs)).1.WF := by
  refine grant_wf (granted_nodup h hq) ?_ ?_ ?_ ?_
  · intro hx
    simp [granted, hx]
  · exact (tail_nodup h hq).sublist ((kept_sublist r rs).map _)
  · exact fun q hmem => front_ne_of_mem_tail h hq ((kept_sublist r rs).subset hmem)
  · intro hx q hmem
    simpa [kept, hx] using (List.mem_filter.1 (by simpa [kept, hx] using hmem)).2

theorem grant_upgrade_wf (h : a.WF) (hq : a.queue = r :: rs) : (a.grant true r.nodeId [] rs).1.WF :=
  grant_wf (by simp) (by simp) (tail_nodup h hq) (fun _ hmem => front_ne_of_mem_tail h hq hmem)
    (by simp)

theorem rest_nodup (h : a.WF) (n : NodeId N) : (a.rest n).Nodup := h.holders_nodup.filter _

theorem mem_rest {m : NodeId N} : m ∈ a.rest n ↔ m ∈ a.holders ∧ m ≠ n := by
  simp [rest]

theorem newestWithout_mem (h : a.WF) {m : NodeId N} (hm : a.newestWithout n = some m) :
    m ∈ a.rest n := by
  by_cases hn : a.newest = some n
  · simp only [newestWithout, hn, ite_true] at hm
    simpa using List.find?_some hm
  · simp only [newestWithout, hn, ite_false] at hm
    exact mem_rest.2 ⟨h.newest_mem hm, fun he => hn (he ▸ hm)⟩

theorem newestWithout_none (h : a.WF) (hm : a.newestWithout n = none) : a.rest n = [] := by
  by_cases hn : a.newest = some n
  · simp only [newestWithout, hn, ite_true, List.find?_eq_none, List.mem_finRange, true_implies,
      decide_eq_true_eq] at hm
    exact List.eq_nil_iff_forall_not_mem.2 hm
  · simp only [newestWithout, hn, ite_false] at hm
    simp [rest, h.newest_none hm]

theorem leave_wf (h : a.WF) (hn : n ∈ a.holders)
    (hq : ∀ {r rs}, a.queue = r :: rs → a.rest n ≠ [] ∧ a.rest n ≠ [r.nodeId]) :
    (a.leave n).WF where
  holders_nodup := rest_nodup h n
  excl_single he := by simp [leave] at he
  queue_nodup := h.queue_nodup
  round {r rs} he := exists_mem_ne (rest_nodup h n) (hq he).1 (hq he).2
  front_reader {r rs} he hr := by
    obtain ⟨m, hm⟩ := h.excl_single (h.front_reader he hr)
    obtain rfl : n = m := by simpa [hm] using hn
    exact absurd (by simp [rest, hm]) (hq he).1
  newest_mem hm := newestWithout_mem h hm
  newest_none hm := newestWithout_none h hm

theorem evict_wf (h : a.WF) (n : NodeId N) (lsn : Nat) : (a.evict n lsn).1.WF := by
  by_cases hc : n ∈ a.holders ∧ a.queue = []
  · have := leave_wf h hc.1 (by simp [hc.2])
    simp only [evict, hc, and_self, ite_true]
    exact { this with }
  · simpa only [evict, hc, ite_false] using h

/-- A round that other readers than `n` are part of is one for an upgrade or another writer. -/
theorem xlock_of_rest (h : a.WF) (hn : n ∈ a.holders) (hq : a.queue = r :: rs)
    (hrest : a.rest n ≠ []) : r.xlock = true := by
  by_contra hx
  obtain ⟨m, hm⟩ := h.excl_single (h.front_reader hq (by simpa using hx))
  obtain rfl : n = m := by simpa [hm] using hn
  exact hrest (by simp [rest, hm])

theorem release_wf (h : a.WF) (hn : n ∈ a.holders) : (a.release n).1.WF := by
  cases hq : a.queue with
  | nil =>
    simp only [release, hq]
    exact leave_wf h hn (by simp [hq])
  | cons r rs =>
    by_cases h0 : a.rest n = []
    · simpa only [release, hq, h0, ite_true] using grant_kept_wf h hq
    · by_cases h1 : a.rest n = [r.nodeId]
      · simpa only [release, hq, h1, List.cons_ne_nil, ite_false, ite_true] using
          grant_upgrade_wf h hq
      · simp only [release, hq, h0, h1, ite_false]
        refine leave_wf h hn fun {r' rs'} he => ?_
        obtain ⟨rfl, -⟩ : r = r' ∧ rs = rs' := by simpa [hq] using he
        exact ⟨h0, h1⟩

end GPLM.AbsDirectory
