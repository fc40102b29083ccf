import HybridCloud.TwoPC.PreparedTxn

/-!
# The registry of prepared transactions

A context keeps its request for ever, and the registry never has an entry for a context with another
identity (`Registry.Entries`).
-/

namespace TwoPC.Registry

open Outcome Function

variable {g g' : Registry} {r : PrepareRequest} {c c' : Nat} {x : Context}

/-- An entry leads to a context with its identity. -/
def Entries (g : Registry) : Prop :=
  ∀ id c, g.contexts id = some c → ∃ x, g.heap[c]? = some x ∧ x.request.id = id

theorem entries_init : Entries init := nofun

/-- What `Begin` does. -/
inductive Begun (g : Registry) (r : PrepareRequest) : Registry → Option Nat → Bool → Prop where
  /-- There is no context with the identity: one is made. -/
  | made (free : g.contexts r.id = none) :
      Begun g r ⟨g.heap ++ [⟨r, 0, .PREPARING⟩],
        update g.contexts r.id (some g.heap.length)⟩ (some g.heap.length) true
  /-- There is one with the same request. -/
  | found {c : Nat} {x : Context} (entry : g.contexts r.id = some c) (context : g.heap[c]? = some x)
      (same : x.request = r) : Begun g r g (some c) false
  /-- There is one with another request. -/
  | conflict {c : Nat} (entry : g.contexts r.id = some c)
      (other : g.heap[c]?.map Context.request ≠ some r) : Begun g r g none false

/-- What `begin` does in each of its branches. -/
theorem begin_cases (g : Registry) (r : PrepareRequest) :
    Begun g r (g.begin r).1 (g.begin r).2.1 (g.begin r).2.2 := by
  unfold begin
  split
  · exact .made ‹_›
  · rename_i c hc
    by_cases hsame : g.heap[c]?.map Context.request = some r
    · simp only [hsame, if_true]
      obtain ⟨x, hx, hr⟩ := Option.map_eq_some_iff.1 hsame
      exact .found hc hx hr
    · simp only [hsame, if_false]
      exact .conflict hc hsame

theorem getElem?_made {l : List Context} {y : Context} (h : (l ++ [y])[c]? = some x) :
    l[c]? = some x ∨ c = l.length ∧ x = y := by
  rcases Nat.lt_trichotomy c l.length with hlt | heq | hgt
  · rw [List.getElem?_append_left hlt] at h
    exact .inl h
  · subst heq
    simp only [List.getElem?_concat_length, Option.some.injEq] at h
    exact .inr ⟨rfl, h.symm⟩
  · rw [List.getElem?_eq_none (by simp; omega)] at h
    cases h

theorem Entries.made (h : Entries g) :
    Entries ⟨g.heap ++ [⟨r, 0, .PREPARING⟩],
      update g.contexts r.id (some g.heap.length)⟩ := by
  intro id c hc
  by_cases hid : id = r.id
  · subst hid
    simp only [update_self, Option.some.injEq] at hc
    subst hc
    exact ⟨⟨r, 0, .PREPARING⟩, List.getElem?_concat_length, rfl⟩
  · simp only [update_of_ne hid] at hc
    obtain ⟨x, hx, hxid⟩ := h id c hc
    have hlt : c < g.heap.length := (List.getElem?_eq_some_iff.1 hx).1
    exact ⟨x, by rw [List.getElem?_append_left hlt]; exact hx, hxid⟩

/-- The contexts of `g'` are those of `g` with the same requests. -/
structure SameRequests (g g' : Registry) : Prop where
  back : ∀ (c : Nat) (x' : Context), g'.heap[c]? = some x' →
    ∃ x : Context, g.heap[c]? = some x ∧ x'.request = x.request
  forth : ∀ (c : Nat) (x : Context), g.heap[c]? = some x →
    ∃ x' : Context, g'.heap[c]? = some x' ∧ x'.request = x.request
  entries : ∀ id c, g'.contexts id = some c → g.contexts id = some c

theorem Entries.same (h : Entries g) (hs : SameRequests g g') : Entries g' := by
  intro id c hc
  obtain ⟨x, hx, hid⟩ := h id c (hs.entries id c hc)
  obtain ⟨x', hx', hreq⟩ := hs.forth c x hx
  exact ⟨x', hx', hreq ▸ hid⟩

theorem SameRequests.of_heap (hheap : g'.heap = g.heap)
    (hentries : ∀ id c, g'.contexts id = some c → g.contexts id = some c) : SameRequests g g' :=
  ⟨fun _ x hx => ⟨x, hheap ▸ hx, rfl⟩, fun _ x hx => ⟨x, hheap.symm ▸ hx, rfl⟩, hentries⟩

theorem erase_heap (g : Registry) (c : Nat) : (g.erase c).heap = g.heap := by
  unfold erase
  split <;> rfl

theorem sameRequests_erase (g : Registry) (c : Nat) : SameRequests g (g.erase c) := by
  refine .of_heap (erase_heap g c) fun id d hd => ?_
  unfold erase at hd
  split at hd
  · exact hd
  · rename_i x hx
    by_cases hid : id = x.request.id
    · subst hid
      simp at hd
    · simpa [hid] using hd

theorem markPrepared_getElem? (g : Registry) (c lsn d : Nat) :
    (g.markPrepared c lsn).heap[d]? =
      (fun x => if c = d then { x with prepareLsn := lsn, state := .PREPARED } else x) <$>
        g.heap[d]? := by
  simp only [markPrepared, List.getElem?_modify]

theorem sameRequests_markPrepared (g : Registry) (c lsn : Nat) :
    SameRequests g (g.markPrepared c lsn) := by
  refine ⟨fun d x' hx' => ?_, fun d x hx => ?_, fun _ _ h => h⟩
  · rw [markPrepared_getElem?] at hx'
    obtain ⟨x, hx, rfl⟩ := Option.map_eq_some_iff.1 hx'
    refine ⟨x, hx, ?_⟩
    split <;> rfl
  · refine ⟨_, by rw [markPrepared_getElem?, hx]; rfl, ?_⟩
    split <;> rfl

/-- What `TakeForCommit` does once it holds the context. -/
inductive Taken (g : Registry) (c : Nat) (x : Context) : Registry → Bool → Prop where
  | prepared (state : x.state = .PREPARED) :
      Taken g c x { g with heap := g.heap.set c { x with state := .APPLYING } } true
  | other (state : x.state ≠ .PREPARED) : Taken g c x g false

theorem takeForCommit_next {taken : Bool} (h : g.takeForCommit c = .next (g', taken)) :
    ∃ x, g.heap[c]? = some x ∧ Taken g c x g' taken := by
  unfold takeForCommit at h
  split at h
  · cases h
  · rename_i x hx
    simp only [bind_eq_next, await_eq_next] at h
    obtain ⟨-, -, h⟩ := h
    refine ⟨x, hx, ?_⟩
    split at h <;> cases h
    · exact .other ‹_›
    · exact .prepared (not_not.1 ‹_›)

/-- A change of state changes no request. -/
theorem sameRequests_set (hx : g.heap[c]? = some x) (state : ContextState) :
    SameRequests g { g with heap := g.heap.set c { x with state := state } } := by
  have hlt : c < g.heap.length := (List.getElem?_eq_some_iff.1 hx).1
  refine ⟨fun d y hy => ?_, fun d y hy => ?_, fun _ _ h => h⟩
  · by_cases hd : c = d
    · subst hd
      rw [List.getElem?_set_self hlt] at hy
      obtain rfl := Option.some.inj hy
      exact ⟨x, hx, rfl⟩
    · rw [List.getElem?_set_ne hd] at hy
      exact ⟨y, hy, rfl⟩
  · by_cases hd : c = d
    · subst hd
      rw [hx] at hy
      obtain rfl := Option.some.inj hy
      exact ⟨_, List.getElem?_set_self hlt, rfl⟩
    · exact ⟨y, by rw [List.getElem?_set_ne hd]; exact hy, rfl⟩

/-- The context found is of the same transaction and timestamps. -/
theorem findForCommit_some {r : CommitRequest} (h : g.findForCommit r = some c) :
    ∃ x, g.contexts r.id = some c ∧ g.heap[c]? = some x ∧
      x.request.transactionId = r.transactionId ∧ x.request.startTs = r.startTs ∧
      x.request.commitTs = r.commitTs := by
  unfold findForCommit at h
  split at h
  · cases h
  · rename_i c' hc
    split at h
    · cases h
    · rename_i x hx
      split at h
      · cases h
      · rename_i hmatch
        obtain rfl := Option.some.inj h
        simp only [not_or, ne_eq, not_not] at hmatch
        exact ⟨x, hc, hx, hmatch⟩

end TwoPC.Registry
