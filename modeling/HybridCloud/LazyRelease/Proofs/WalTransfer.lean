import HybridCloud.LazyRelease.Proofs.PushCallers
import HybridCloud.Logging.Proofs.Watermark

/-!
# The log comes before the page

A frame whose page is not durable is dirty, and the record that is missing was made by the node of
the frame. So the node's own `persist_lsn` is the right thing to wait for, and there is nothing to
wait for when the flag is not set.
-/

namespace PageTransfer

open GPLM LazyRelease Logging Storage Outcome Function

variable {N : Nat} {α : Type} {key : PageKey} {s s' s₁ : State N α} {n : NodeId N} {llsn : Nat}

attribute [local simp] LazyRelease.State.setNode

/-- Node `n` has made the record that led to the version `llsn` of the page. -/
def State.Issued (key : PageKey) (s : State N α) (n : NodeId N) (llsn : Nat) : Prop :=
  ∃ r ∈ (s.logs n).issued, r.pageForLog = some key ∧ r.lsn = llsn

/-- A call of `PushPageToOther`: the frame still holds what was copied. -/
structure CallInv (key : PageKey) (s : State N α) (call : PushCall N α) : Prop where
  le : call.frame ≤ s.frame call.src
  llsn : (s.frames call.src call.frame).llsn = call.pageData.llsn
  waiting : ∀ lsn, call.wait = .waiting lsn → lsn = call.pageData.llsn
  done : call.wait = .done → s.Durable key call.pageData.llsn

/-- A task that may not run yet waits for the record of its image. -/
def TaskInv (key : PageKey) (s : State N α) (task : PushTask N α) : Prop :=
  s.Durable key task.pageData.llsn ∨
    task.canPush = false ∧ task.waitLsn = task.pageData.llsn ∧
      s.Issued key task.src task.pageData.llsn

/-- An eviction that waits for the log. If another image has come in, it is durable. -/
structure EvictInv (key : PageKey) (s : State N α) (n : NodeId N) (e : EvictCall) : Prop where
  chosen : .chosen ∈ (s.sys.nodes n).evicts
  le : e.frame ≤ s.frame n
  current : e.frame = s.frame n ∨ s.Durable key (s.frames n (s.frame n)).llsn
  waiting : ∀ lsn, e.wait = .waiting lsn → lsn = (s.frames n e.frame).llsn
  done : e.wait = .done → s.Durable key (s.frames n (s.frame n)).llsn

/-- What holds of frames, logs and pushes. -/
structure Inv (key : PageKey) (s : State N α) : Prop where
  lock : LockInv s.sys
  log : ∀ n, (s.logs n).LogInv
  /-- A thread inside of `PushPageToOther` is still where it called it. -/
  busy : ∀ n c, s.busy n c ≤ atPush s.sys n c
  /-- A frame is durable, or dirty with a record of its own node. -/
  frame : ∀ n k, s.Durable key (s.frames n k).llsn ∨
    (s.frames n k).dirty = true ∧ s.Issued key n (s.frames n k).llsn
  buffer : ∀ n page, (s.sys.nodes n).buffer = some page →
    (s.frames n (s.frame n)).llsn = page.llsn
  call : ∀ call ∈ s.calls, CallInv key s call
  task : ∀ task ∈ s.tasks, TaskInv key s task
  evict : ∀ n e, s.evict n = some e → EvictInv key s n e
  pushes : ∀ n, ∀ page ∈ (s.sys.nodes n).pushes, s.Durable key page.llsn
  sent : ∀ page ∈ s.sent, s.Durable key page.llsn
  published : ∀ lsn ∈ s.published, s.Durable key lsn

/-- The logs only grow. -/
structure Grows (key : PageKey) (s s' : State N α) : Prop where
  durable : ∀ {llsn}, s.Durable key llsn → s'.Durable key llsn
  issued : ∀ {n llsn}, s.Issued key n llsn → s'.Issued key n llsn

theorem Grows.of_logs (hb : s'.sys.base = s.sys.base)
    (hd : ∀ n, (s.logs n).durable ⊆ (s'.logs n).durable)
    (hi : ∀ n, (s.logs n).issued ⊆ (s'.logs n).issued) : Grows key s s' := by
  refine ⟨?_, ?_⟩
  · rintro llsn (h | ⟨n, r, hr, h⟩)
    · exact .inl (h.trans (congrArg Page.llsn hb.symm))
    · exact .inr ⟨n, r, hd n hr, h⟩
  · rintro n llsn ⟨r, hr, h⟩
    exact ⟨r, hi n hr, h⟩

theorem Grows.of_eq (hb : s'.sys.base = s.sys.base) (hl : s'.logs = s.logs) : Grows key s s' := by
  refine .of_logs hb (fun n => ?_) fun n => ?_ <;> rw [hl] <;> exact List.Subset.refl _

variable {task : PushTask N α}

theorem TaskInv.mono (h : TaskInv key s task) (g : Grows key s s') : TaskInv key s' task := by
  rcases h with h | ⟨hcan, hlsn, h⟩
  · exact .inl (g.durable h)
  · exact .inr ⟨hcan, hlsn, g.issued h⟩

variable {call : PushCall N α}

theorem CallInv.mono (h : CallInv key s call) (g : Grows key s s')
    (hle : s.frame call.src ≤ s'.frame call.src)
    (hframes : (s'.frames call.src call.frame).llsn = (s.frames call.src call.frame).llsn) :
    CallInv key s' call where
  le := h.le.trans hle
  llsn := hframes.trans h.llsn
  waiting := h.waiting
  done hd := g.durable (h.done hd)

theorem EvictInv.mono {e : EvictCall} (h : EvictInv key s n e) (g : Grows key s s')
    (hchosen : .chosen ∈ (s'.sys.nodes n).evicts) (hframe : s'.frame n = s.frame n)
    (hframes : ∀ k, (s'.frames n k).llsn = (s.frames n k).llsn) : EvictInv key s' n e where
  chosen := hchosen
  le := hframe ▸ h.le
  current := by
    rw [hframe, hframes]
    exact h.current.imp_right g.durable
  waiting lsn hw := (h.waiting lsn hw).trans (hframes _).symm
  done hd := by
    rw [hframe, hframes]
    exact g.durable (h.done hd)

theorem durable_of_issued (hlog : (s.logs n).LogInv) (hi : s.Issued key n llsn)
    (hle : llsn ≤ (s.logs n).persistLsn) : s.Durable key llsn := by
  obtain ⟨r, hr, hkey, rfl⟩ := hi
  refine .inr ⟨n, r, ?_, hkey, rfl⟩
  by_contra hrd
  have := hlog.persist_lt hr hrd
  omega

variable {k : Nat}

namespace Inv

theorem durable_of_clean (h : Inv key s) (hc : (s.frames n k).dirty = false) :
    s.Durable key (s.frames n k).llsn := by
  rcases h.frame n k with hd | ⟨hd, -⟩
  · exact hd
  · rw [hc] at hd
    cases hd

theorem durable_of_flushed (h : Inv key s) (hle : (s.frames n k).llsn ≤ (s.logs n).persistLsn) :
    s.Durable key (s.frames n k).llsn := by
  rcases h.frame n k with hd | ⟨-, hi⟩
  · exact hd
  · exact durable_of_issued (h.log n) hi hle

end Inv

theorem setFrame_frames (m : NodeId N) (k j : Nat) (fr : Frame) :
    (s.setFrame n k fr).frames m j = if m = n ∧ j = k then fr else s.frames m j := by
  by_cases hm : m = n
  · subst hm
    by_cases hj : j = k
    · subst hj
      simp [State.setFrame]
    · simp [State.setFrame, hj]
  · simp [State.setFrame, update, hm]

/-- A part of `wait_log_flush` for the frame `k`: it changes nothing but the dirty flag, and when it
has returned the frame is durable. -/
structure Waited (key : PageKey) (s s₁ : State N α) (n : NodeId N) (k : Nat) (wait : LogWait) :
    Prop where
  same : s₁ = { s with frames := s₁.frames }
  frames : ∀ m j, (s₁.frames m j).llsn = (s.frames m j).llsn
  inv : Inv key s₁
  waiting : ∀ lsn, wait = .waiting lsn → lsn = (s.frames n k).llsn
  done : wait = .done → s.Durable key (s.frames n k).llsn

theorem cleaned_llsn (m : NodeId N) (j : Nat) :
    ((s.setFrame n k { s.frames n k with dirty := false }).frames m j).llsn =
      (s.frames m j).llsn := by
  rw [setFrame_frames]
  split
  · rename_i hmj
    rw [hmj.1, hmj.2]
  · rfl

theorem Inv.cleaned (h : Inv key s) (hd : s.Durable key (s.frames n k).llsn) :
    Inv key (s.setFrame n k { s.frames n k with dirty := false }) := by
  have g : Grows key s (s.setFrame n k { s.frames n k with dirty := false }) := .of_eq rfl rfl
  refine { h with frame := fun m j => ?_, buffer := fun m page hb => ?_, call := fun call hc => ?_
                  evict := fun m e he => ?_ }
  · rw [setFrame_frames]
    split
    · exact .inl hd
    · exact h.frame m j
  · exact (cleaned_llsn m _).trans (h.buffer m page hb)
  · exact (h.call call hc).mono g le_rfl (cleaned_llsn _ _)
  · exact (h.evict m e he).mono g (h.evict m e he).chosen rfl (cleaned_llsn m)

theorem waitLogFlush_next {wait wait' : LogWait} (h : Inv key s)
    (hwait : ∀ lsn, wait = .waiting lsn → lsn = (s.frames n k).llsn)
    (taken : s.waitLogFlush n k wait = .next (s₁, wait')) : Waited key s s₁ n k wait' := by
  cases wait with
  | entering =>
    obtain ⟨rfl, rfl⟩ := taken
    refine ⟨rfl, fun _ _ => rfl, h, fun lsn hw => ?_, fun hd => ?_⟩
    · split at hw
      · exact (LogWait.waiting.inj hw).symm
      · cases hw
    · split at hd
      · cases hd
      · rename_i hclean
        exact h.durable_of_clean (Bool.eq_false_iff.2 hclean)
  | waiting lsn =>
    simp only [State.waitLogFlush, LogBuffer.waitLogFlush, bind_eq_next, await_eq_next, pure_def,
      next.injEq, Prod.mk.injEq] at taken
    obtain ⟨-, hle, rfl, rfl⟩ := taken
    obtain rfl := hwait lsn rfl
    have hd := h.durable_of_flushed hle
    exact ⟨rfl, cleaned_llsn, h.cleaned hd, nofun, fun _ => hd⟩
  | done => cases taken

namespace Inv

theorem busy_pos (h : Inv key s) (hc : call ∈ s.calls) : 0 < atPush s.sys call.src call.caller := by
  refine Nat.lt_of_lt_of_le ?_ (h.busy call.src call.caller)
  exact List.countP_pos_iff.2 ⟨call, hc, by simp⟩

theorem busy_setNode (h : Inv key s) {nd : Node N α} (hst : Stays (s.sys.nodes n) nd)
    (m : NodeId N) (c : Caller N) : s.busy m c ≤ atPush (s.sys.setNode n nd) m c :=
  (h.busy m c).trans (Stays.atPush_le hst.setNode m c)

variable {sys : LazyRelease.State N α}

theorem quiet (h : Inv key s) (lock : LockInv sys) (busy : ∀ n c, s.busy n c ≤ atPush sys n c)
    (q : Quiet (fun n => s.evict n ≠ none) s.sys sys) : Inv key { s with sys := sys } := by
  have g : Grows key s { s with sys := sys } := .of_eq q.base rfl
  exact
    { lock := lock, log := h.log, busy := busy
      frame := fun n k => (h.frame n k).imp g.durable (And.imp_right g.issued)
      buffer := fun n page hb => h.buffer n page (q.buffer n page hb)
      call := fun call hc => (h.call call hc).mono g le_rfl rfl
      task := fun task ht => (h.task task ht).mono g
      evict := fun n e he => (h.evict n e he).mono g
        (q.chosen n (by rw [he]; nofun) (h.evict n e he).chosen) rfl fun _ => rfl
      pushes := fun n page hp => g.durable (h.pushes n page (q.pushes n hp))
      sent := fun page hp => g.durable (h.sent page hp)
      published := fun lsn hl => g.durable (h.published lsn hl) }

theorem goesOn (h : Inv key s) [DecidableEq α] (hc : call ∈ s.calls)
    (go : GoesOn s.sys sys call.src call.caller) :
    Inv key { s with sys := sys, calls := s.calls.erase call } := by
  have hcount : ∀ n c, State.busy { s with calls := s.calls.erase call } n c +
      (if n = call.src ∧ c = call.caller then 1 else 0) = s.busy n c := by
    intro n c
    have := Counting.countP_erase_add
      (fun x : PushCall N α => decide (x.src = n ∧ x.caller = c)) hc
    simp only [decide_eq_true_eq, eq_comm (b := n), eq_comm (b := c)] at this
    simpa only [State.busy, eq_comm (b := n), eq_comm (b := c)] using this
  have hremoved : Inv key { s with calls := s.calls.erase call } :=
    { h with
      busy := fun n c => (Nat.le_add_right _ _).trans ((hcount n c).le.trans (h.busy n c))
      call := fun x hx => { h.call x (List.mem_of_mem_erase hx) with }
      evict := fun n e he => { h.evict n e he with } }
  refine hremoved.quiet (go.lock h.lock) (fun n c => ?_) (go.quiet _)
  have hle := go.leaves n c
  have hb := h.busy n c
  have := hcount n c
  omega

variable {page : Page α}

section

variable (h : Inv key s)
include h

/-- A page whose log is durable may be sent. -/
theorem send (dest : NodeId N) (hd : s.Durable key page.llsn) :
    Inv key { s with sys := sendPage s.sys dest page, sent := s.sent ++ [page] } where
  lock := h.lock.pushed dest page
  log := h.log
  busy n c := by
    rw [atPush_sendPage]
    exact h.busy n c
  frame := h.frame
  buffer n p hb := by
    refine h.buffer n p ?_
    by_cases hn : n = dest
    · subst hn
      simpa [sendPage] using hb
    · simpa [sendPage, update, hn] using hb
  call call hc := { h.call call hc with }
  task := h.task
  evict n e he := by
    refine { h.evict n e he with chosen := ?_ }
    have hch := (h.evict n e he).chosen
    by_cases hn : n = dest
    · subst hn
      simpa [sendPage] using hch
    · simpa [sendPage, update, hn] using hch
  pushes n p hp := by
    by_cases hn : n = dest
    · subst hn
      simp only [sendPage, LazyRelease.State.setNode, update_self, List.mem_append,
        List.mem_singleton] at hp
      rcases hp with hp | rfl
      · exact h.pushes n p hp
      · exact hd
    · refine h.pushes n p ?_
      simpa [sendPage, update, hn] using hp
  sent p hp := by
    rcases List.mem_append.1 hp with hp | hp
    · exact h.sent p hp
    · obtain rfl := List.mem_singleton.1 hp
      exact hd
  published := h.published

theorem logStep {b : LogBuffer} (hlog : b.LogInv)
    (hsub : (s.logs n).durable ⊆ b.durable ∧ (s.logs n).issued ⊆ b.issued) :
    Inv key { s with logs := update s.logs n b } := by
  have g : Grows key s { s with logs := update s.logs n b } := by
    refine .of_logs rfl (fun m => ?_) fun m => ?_ <;> by_cases hm : m = n
    · subst hm
      simpa using hsub.1
    · simp [hm]
    · subst hm
      simpa using hsub.2
    · simp [hm]
  refine
    { h with
      log := fun m => ?_
      frame := fun n k => (h.frame n k).imp g.durable (And.imp_right g.issued)
      call := fun call hc => (h.call call hc).mono g le_rfl rfl
      task := fun task ht => (h.task task ht).mono g
      evict := fun n e he => (h.evict n e he).mono g (h.evict n e he).chosen rfl fun _ => rfl
      pushes := fun n page hp => g.durable (h.pushes n page hp)
      sent := fun page hp => g.durable (h.sent page hp)
      published := fun lsn hl => g.durable (h.published lsn hl) }
  by_cases hm : m = n
  · subst hm
    simpa using hlog
  · simpa [hm] using h.log m

/-- A page that arrives takes a new frame. -/
theorem arrive (lock : LockInv sys) (busy : ∀ n c, s.busy n c ≤ atPush sys n c)
    (base : sys.base = s.sys.base) {nd : Node N α}
    (nodes : sys.nodes = (s.sys.setNode n nd).nodes) (buffer : nd.buffer = some page)
    (evicts : nd.evicts = (s.sys.nodes n).evicts) (pushes : nd.pushes ⊆ (s.sys.nodes n).pushes)
    (hd : s.Durable key page.llsn) : Inv key { s.newFrame n page.llsn with sys := sys } := by
  have g : Grows key s { s.newFrame n page.llsn with sys := sys } := .of_eq base rfl
  have hframes : ∀ m k, (s.newFrame n page.llsn).frames m k =
      if m = n ∧ k = s.frame n + 1 then ⟨page.llsn, false⟩ else s.frames m k :=
    fun m k => setFrame_frames m _ k _
  have hframe : ∀ m, (s.newFrame n page.llsn).frame m =
      if m = n then s.frame n + 1 else s.frame m := by
    intro m
    by_cases hm : m = n
    · subst hm
      simp [State.newFrame]
    · simp [State.newFrame, hm]
  have hold : ∀ m k, k ≤ s.frame m → (s.newFrame n page.llsn).frames m k = s.frames m k := by
    intro m k hk
    rw [hframes, if_neg]
    rintro ⟨rfl, rfl⟩
    omega
  have hnode : ∀ m, m ≠ n → sys.nodes m = s.sys.nodes m := by
    intro m hm
    simp [nodes, update, hm]
  have hself : sys.nodes n = nd := by simp [nodes]
  refine
    { lock := lock, log := h.log, busy := busy
      frame := fun m k => ?_
      buffer := fun m p hp => ?_
      call := fun call hc => ?_
      task := fun task ht => (h.task task ht).mono g
      evict := fun m e he => ?_
      pushes := fun m p hp => g.durable ?_
      sent := fun p hp => g.durable (h.sent p hp)
      published := fun lsn hl => g.durable (h.published lsn hl) }
  · rw [hframes]
    split
    · exact .inl (g.durable hd)
    · exact (h.frame m k).imp g.durable (And.imp_right g.issued)
  · by_cases hm : m = n
    · subst hm
      rw [hself, buffer] at hp
      obtain rfl := Option.some.inj hp
      simp [hframe, hframes]
    · rw [hnode m hm] at hp
      rw [hframe, if_neg hm, hold m _ le_rfl]
      exact h.buffer m p hp
  · refine (h.call call hc).mono g ?_ (congrArg Frame.llsn (hold _ _ (h.call call hc).le))
    rw [hframe]
    split
    · rename_i hsrc
      rw [hsrc]
      exact Nat.le_succ _
    · exact le_rfl
  · have hev := h.evict m e he
    by_cases hm : m = n
    · -- the frame of the eviction is not the current one any more
      subst hm
      have hcur : State.Durable key { s.newFrame m page.llsn with sys := sys }
          ((s.newFrame m page.llsn).frames m ((s.newFrame m page.llsn).frame m)).llsn := by
        rw [hframe, if_pos rfl, hframes, if_pos ⟨rfl, rfl⟩]
        exact g.durable hd
      refine ⟨?_, ?_, .inr hcur, fun lsn hw => ?_, fun _ => hcur⟩
      · rw [hself, evicts]
        exact hev.chosen
      · rw [hframe, if_pos rfl]
        exact hev.le.trans (Nat.le_succ _)
      · rw [hold m _ hev.le]
        exact hev.waiting lsn hw
    · refine hev.mono g ?_ ?_ fun k => ?_
      · rw [hnode m hm]
        exact hev.chosen
      · exact (hframe m).trans (if_neg hm)
      · rw [hframes, if_neg fun hmk => hm hmk.1]
  · by_cases hm : m = n
    · subst hm
      rw [hself] at hp
      exact h.pushes m p (pushes hp)
    · rw [hnode m hm] at hp
      exact h.pushes m p hp

/-- A writer changes the page. No thread of the node is between the parts of a push or an eviction
then. -/
theorem changed {fr : Frame}
    (lock : LockInv sys) (busy : ∀ n c, s.busy n c ≤ atPush sys n c)
    (base : sys.base = s.sys.base) (writer : 0 < (s.sys.nodes n).writers)
    (nodes : sys.nodes =
      (s.sys.setNode n { s.sys.nodes n with buffer := some page }).nodes)
    (hpage : fr.llsn = page.llsn)
    (hfr : s.Durable key fr.llsn ∨ fr.dirty = true ∧ s.Issued key n fr.llsn) :
    Inv key { s.setFrame n (s.frame n) fr with sys := sys } := by
  have g : Grows key s { s.setFrame n (s.frame n) fr with sys := sys } := .of_eq base rfl
  have hnode : ∀ m, m ≠ n → sys.nodes m = s.sys.nodes m := by
    intro m hm
    simp [nodes, update, hm]
  have hself : sys.nodes n = { s.sys.nodes n with buffer := some page } := by
    simp [nodes]
  have hframes : ∀ m k, m ≠ n → (s.setFrame n (s.frame n) fr).frames m k = s.frames m k := by
    intro m k hm
    rw [setFrame_frames, if_neg fun hmk => hm hmk.1]
  have hcalls : ∀ call ∈ s.calls, call.src ≠ n := by
    rintro call hc rfl
    have := no_writer_of_atPush h.lock (h.busy_pos hc)
    omega
  have hevicts : ∀ m e, s.evict m = some e → m ≠ n := by
    rintro m e he rfl
    have hch := (h.evict m e he).chosen
    rw [(alone_of_writer h.lock writer).2.2.2.2] at hch
    cases hch
  refine
    { lock := lock, log := h.log, busy := busy
      frame := fun m k => ?_
      buffer := fun m p hp => ?_
      call := fun call hc => (h.call call hc).mono g le_rfl
        (congrArg Frame.llsn (hframes _ _ (hcalls call hc)))
      task := fun task ht => (h.task task ht).mono g
      evict := fun m e he => ?_
      pushes := fun m p hp => g.durable (h.pushes m p ?_)
      sent := fun p hp => g.durable (h.sent p hp)
      published := fun lsn hl => g.durable (h.published lsn hl) }
  · rw [setFrame_frames]
    split
    · rename_i hmk
      rw [hmk.1]
      exact hfr.imp g.durable (And.imp_right g.issued)
    · exact (h.frame m k).imp g.durable (And.imp_right g.issued)
  · by_cases hm : m = n
    · subst hm
      rw [hself] at hp
      obtain rfl := Option.some.inj hp
      rw [setFrame_frames, if_pos ⟨rfl, rfl⟩]
      exact hpage
    · rw [hnode m hm] at hp
      rw [hframes m _ hm]
      exact h.buffer m p hp
  · have hm := hevicts m e he
    refine (h.evict m e he).mono g ?_ rfl fun k => congrArg Frame.llsn (hframes m k hm)
    rw [hnode m hm]
    exact (h.evict m e he).chosen
  · by_cases hm : m = n
    · subst hm
      rw [hself] at hp
      exact hp
    · rw [hnode m hm] at hp
      exact hp

theorem step_log {a : LogBuffer.Action} (taken : s.log key n a = .next s') :
    Inv key s' := by
  simp only [State.log, bind_eq_next, await_eq_next, pure_def, next.injEq] at taken
  obtain ⟨-, -, b, hb, rfl⟩ := taken
  exact h.logStep ((h.log n).step hb) (LogBuffer.subset_step hb)

theorem step_startPush {c : Caller N} {scheduled : Bool}
    (taken : s.startPush n c scheduled = .next s') : Inv key s' := by
  simp only [State.startPush, bind_eq_next, await_eq_next] at taken
  obtain ⟨-, hlt, taken⟩ := taken
  split at taken
  · rename_i dest page hdest hbuf
    simp only [bind_eq_next, cassert_eq_next, pure_def, next.injEq] at taken
    obtain ⟨-, -, rfl⟩ := taken
    refine { h with busy := fun m c' => ?_, call := fun call hc => ?_
                    evict := fun m e he => { h.evict m e he with } }
    · simp only [State.busy, List.countP_cons]
      split
      · rename_i heq
        simp only [decide_eq_true_eq] at heq
        obtain ⟨rfl, rfl⟩ := heq
        exact hlt
      · exact h.busy m c'
    · rcases List.mem_cons.1 hc with rfl | hc
      · exact ⟨le_rfl, h.buffer n page hbuf, (by simp), (by simp)⟩
      · exact { h.call call hc with }
  · split at taken <;> cases taken
  · cases taken

end

theorem durable_replay (s : State N α) {log : List (Nat × (α → α))}
    (hd : ∀ r ∈ log, s.Durable key r.1) : s.Durable key (replay s.sys.base log).llsn := by
  rcases List.eq_nil_or_concat log with rfl | ⟨init, r, rfl⟩
  · exact .inl rfl
  · simp only [replay, List.concat_eq_append, List.foldl_append]
    exact hd r (by simp)

theorem step_evictStart (h : Inv key s) (taken : s.evictStart n = .next s') : Inv key s' := by
  simp only [State.evictStart, bind_eq_next, await_eq_next] at taken
  obtain ⟨-, ⟨hch, hnone⟩, ⟨lk, unlockRemote⟩, hcall, taken⟩ := taken
  obtain ⟨-, -, rfl⟩ := LRLocalPageLock.getUnlockType_next hcall
  split at taken
  · obtain rfl := next.inj taken
    refine h.quiet (h.lock.setNode (((h.lock.node n).setEvict hch .ending rfl).congr rfl rfl))
      (h.busy_setNode (.of_eq rfl rfl rfl)) ?_
    exact Quiet.setNode (fun _ hb => hb) rfl fun hw _ => absurd hnone hw
  · simp only [bind_eq_next, cassert_eq_next, pure_def, next.injEq] at taken
    obtain ⟨-, -, rfl⟩ := taken
    have hlock : LockInv (s.sys.setNode n { s.sys.nodes n with lk := (s.sys.nodes n).lk.takeMtx }) :=
      h.lock.setNode ((h.lock.node n).congr rfl rfl)
    have h₁ := h.quiet hlock (h.busy_setNode (.of_eq rfl rfl rfl)) (by apply Quiet.of_node <;> rfl)
    refine { h₁ with call := fun x hx => { h₁.call x hx with }, evict := fun m e he => ?_ }
    by_cases hm : m = n
    · subst hm
      simp only [update_self, Option.some.injEq] at he
      subst he
      refine ⟨?_, le_rfl, .inl rfl, (by simp), (by simp)⟩
      simpa using hch
    · simp only [update, hm, dite_false] at he
      exact { h₁.evict m e he with }

theorem step_evictWait (h : Inv key s) (taken : s.evictWait n = .next s') : Inv key s' := by
  unfold State.evictWait at taken
  split at taken
  · cases taken
  · rename_i e he
    simp only [bind_eq_next] at taken
    obtain ⟨⟨s₁, wait⟩, hwait, taken⟩ := taken
    simp only [pure_def, next.injEq] at taken
    subst taken
    have hev := h.evict n e he
    obtain ⟨hsame, hframes, h₁, hwaiting, hdone⟩ := waitLogFlush_next h hev.waiting hwait
    have hevict : s₁.evict = s.evict := by rw [hsame]
    have hev₁ := h₁.evict n e (by rw [hevict]; exact he)
    refine { h₁ with call := fun x hx => { h₁.call x hx with }, evict := fun m e' he' => ?_ }
    by_cases hm : m = n
    · subst hm
      simp only [update_self, Option.some.injEq] at he'
      subst he'
      refine { hev₁ with waiting := fun lsn hw => ?_, done := fun hd => ?_ }
      · exact (hwaiting lsn hw).trans (hframes _ _).symm
      · -- either the frame that the wait was about is the current one, or that one is durable
        rcases hev₁.current with hcur | hcur
        · rw [← hcur, hframes, hsame]
          exact hdone hd
        · exact hcur
    · simp only [update, hm, dite_false] at he'
      exact { h₁.evict m e' he' with }

theorem step_evictAsk (h : Inv key s) (taken : s.evictAsk n = .next s') : Inv key s' := by
  unfold State.evictAsk at taken
  split at taken
  · rename_i e page he hbuf
    simp only [bind_eq_next, await_eq_next, pure_def, next.injEq] at taken
    obtain ⟨-, hdone, rfl⟩ := taken
    have hev := h.evict n e he
    have hd : s.Durable key page.llsn := by
      rw [← h.buffer n page hbuf]
      exact hev.done hdone
    have h₁ : Inv key { s with
        evict := update s.evict n none, published := s.published ++ [page.llsn] } := by
      refine { h with call := fun x hx => { h.call x hx with }, evict := fun m e' he' => ?_
                      published := fun lsn hl => ?_ }
      · by_cases hm : m = n
        · subst hm
          simp at he'
        · simp only [update, hm, dite_false] at he'
          exact { h.evict m e' he' with }
      · rcases List.mem_append.1 hl with hl | hl
        · exact h.published lsn hl
        · obtain rfl := List.mem_singleton.1 hl
          exact hd
    refine h₁.quiet
      (h.lock.setNode (((h.lock.node n).setEvict hev.chosen (.asking page.llsn) rfl).congr rfl rfl))
      (h₁.busy_setNode (.of_eq rfl rfl rfl)) ?_
    refine Quiet.setNode (fun _ hb => hb) rfl fun hw _ => absurd ?_ hw
    simp
  · cases taken
  · cases taken

variable [DecidableEq α]

variable {a : LazyRelease.Action N α}

theorem step_protocol (hN : N < GPLM.EXCLUSIVE_LOCKED) (h : Inv key s)
    (taken : s.protocol a = .next s') : Inv key s' := by
  simp only [State.protocol, bind_eq_next, await_eq_next, pure_def, next.injEq] at taken
  obtain ⟨-, hplain, sys, hsys, rfl⟩ := taken
  have hs := step_cases hsys
  exact h.quiet (h.lock.step hN hs) (busy_protocol h.busy hs hplain) (quiet_protocol hs hplain)

theorem busy_of_step (h : Inv key s) (hs : Step s.sys a sys) (ha : leavesPush a = false)
    (n : NodeId N) (c : Caller N) : s.busy n c ≤ atPush sys n c :=
  (h.busy n c).trans (Stays.atPush_le (stays_step hs ha) n c)

section

variable (hN : N < GPLM.EXCLUSIVE_LOCKED)
include hN

theorem step_write (h : Inv key s) {f : α → α} {log : LogRecord}
    (taken : s.write key n f log = .next s') : Inv key s' := by
  unfold State.write at taken
  split at taken
  · cases taken
  · rename_i page hbuf
    simp only [bind_eq_next, await_eq_next, pure_def, next.injEq] at taken
    obtain ⟨-, hkey, b, hb, sys, hsys, rfl⟩ := taken
    have hlogged := h.logStep ((h.log n).step (a := .updatePageLLSN log page.llsn) hb)
      (LogBuffer.subset_step (a := .updatePageLLSN log page.llsn) hb)
    have hs : Step s.sys (.write n f b.currentLLSN) sys := step_cases hsys
    have hlock := h.lock.step hN hs
    have hbusy := h.busy_of_step hs rfl
    cases hs with
    | write writer buf lt =>
      refine hlogged.changed hlock hbusy rfl writer rfl rfl (.inr ⟨rfl, ?_⟩)
      -- the record that has just been allocated
      simp only [LogBuffer.updatePageLLSN, bind_eq_next, await_eq_next, pure_def,
        next.injEq] at hb
      obtain ⟨-, -, rfl⟩ := hb
      refine ⟨{ log with
        lsn := nextPageLLSN (s.logs n).currentLLSN page.llsn, prevLsn := page.llsn }, ?_, hkey, rfl⟩
      simp [LogBuffer.issued]

theorem step_writeUnlogged (h : Inv key s) {f : α → α}
    (taken : s.writeUnlogged n f = .next s') : Inv key s' := by
  simp only [State.writeUnlogged, bind_eq_next, pure_def, next.injEq] at taken
  obtain ⟨sys, hsys, rfl⟩ := taken
  have hs : Step s.sys (.writeUnlogged n f) sys := step_cases hsys
  have hlock := h.lock.step hN hs
  have hbusy := h.busy_of_step hs rfl
  cases hs with
  | @writeUnlogged _ _ page writer buf =>
    have hllsn : (s.frames n (s.frame n)).llsn = page.llsn := h.buffer n page buf
    exact h.changed hlock hbusy rfl writer rfl hllsn
      ((h.frame n (s.frame n)).imp_right fun hi => ⟨rfl, hi.2⟩)

theorem step_readStorage (h : Inv key s) {f : Fetch N}
    (taken : s.readStorage key n f k = .next s') : Inv key s' := by
  simp only [State.readStorage, bind_eq_next, await_eq_next, pure_def, next.injEq] at taken
  obtain ⟨-, hd, sys, hsys, rfl⟩ := taken
  have hs : Step s.sys (.readStorage n f k) sys := step_cases hsys
  have hlock := h.lock.step hN hs
  have hbusy := h.busy_of_step hs rfl
  cases hs with
  | readStorage =>
    exact h.arrive hlock hbusy rfl rfl rfl rfl (List.Subset.refl _) (durable_replay s hd)

theorem step_pushArrive (h : Inv key s)
    (taken : s.pushArrive n page = .next s') : Inv key s' := by
  simp only [State.pushArrive, bind_eq_next, pure_def, next.injEq] at taken
  obtain ⟨sys, hsys, rfl⟩ := taken
  have hs : Step s.sys (.pushArrive n page) sys := step_cases hsys
  have hlock := h.lock.step hN hs
  have hbusy := h.busy_of_step hs rfl
  cases hs with
  | pushArrive mem =>
    exact h.arrive hlock hbusy rfl rfl rfl rfl (List.erase_subset) (h.pushes n page mem)

end

theorem step_pushWait (h : Inv key s) (taken : s.pushWait call = .next s') : Inv key s' := by
  simp only [State.pushWait, bind_eq_next, await_eq_next] at taken
  obtain ⟨-, ⟨hc, -⟩, ⟨s₁, wait⟩, hwait, taken⟩ := taken
  simp only [pure_def, next.injEq] at taken
  subst taken
  have hcall := h.call call hc
  have w := waitLogFlush_next h (fun lsn hw => (hcall.waiting lsn hw).trans hcall.llsn.symm) hwait
  obtain ⟨hsame, hframes, h₁, hwaiting, hdone⟩ := w
  have hcalls : s₁.calls = s.calls := by rw [hsame]
  have hframe : s₁.frame = s.frame := by rw [hsame]
  have hdur : ∀ {l}, s.Durable key l → s₁.Durable key l := by
    intro l
    rw [hsame]
    exact id
  rw [← hcalls] at hc
  refine { h₁ with busy := fun n c => ?_, call := fun x hx => ?_
                   evict := fun m e he => { h₁.evict m e he with } }
  · refine le_trans (le_of_eq ?_) (h₁.busy n c)
    exact Counting.countP_replace hc rfl
  · rcases List.mem_cons.1 hx with rfl | hx
    · have hold := h₁.call call hc
      refine ⟨hold.le, hold.llsn, fun lsn hw => ?_, fun hd => ?_⟩
      · exact (hwaiting lsn hw).trans hcall.llsn
      · have hd' := hdur (hdone hd)
        rw [hcall.llsn] at hd'
        exact hd'
    · exact { h₁.call x (List.mem_of_mem_erase hx) with }

theorem step_pushSend (h : Inv key s) (taken : s.pushSend call = .next s') : Inv key s' := by
  simp only [State.pushSend, bind_eq_next, await_eq_next, pure_def, next.injEq] at taken
  obtain ⟨-, ⟨hc, -, hdone⟩, sys, hsys, rfl⟩ := taken
  have hsent := h.send call.dest ((h.call call hc).done hdone)
  exact hsent.goesOn hc (afterPush_next hsys (hsent.busy_pos hc))

theorem step_schedule (h : Inv key s) (taken : s.schedule call = .next s') : Inv key s' := by
  simp only [State.schedule, bind_eq_next, await_eq_next, pure_def, next.injEq] at taken
  obtain ⟨-, ⟨hc, -⟩, sys, hsys, rfl⟩ := taken
  have go := afterPush_next hsys (h.busy_pos hc)
  have h₁ := h.goesOn hc go
  refine { h₁ with call := fun x hx => { h₁.call x hx with }
                   evict := fun m e he => { h₁.evict m e he with }
                   task := fun task ht => ?_ }
  rcases List.mem_cons.1 ht with rfl | ht
  · have g : Grows key s { s with sys := sys, calls := s.calls.erase call } :=
      .of_eq (go.quiet fun _ => True).base rfl
    have hllsn := (h.call call hc).llsn
    by_cases hcan : (s.frames call.src call.frame).dirty = true ∧
        (s.logs call.src).persistLsn < call.pageData.llsn
    · have hframe := h.frame call.src call.frame
      rw [hllsn] at hframe
      exact hframe.imp g.durable fun hi => ⟨by simp [hcan], rfl, g.issued hi.2⟩
    · refine .inl (g.durable ?_)
      rw [← hllsn]
      by_cases hclean : (s.frames call.src call.frame).dirty = true
      · refine h.durable_of_flushed ?_
        rw [hllsn]
        exact not_lt.1 fun hlt => hcan ⟨hclean, hlt⟩
      · exact h.durable_of_clean (Bool.eq_false_iff.2 hclean)
  · exact h₁.task task ht

theorem step_runTask (h : Inv key s) (taken : s.runTask task = .next s') : Inv key s' := by
  simp only [State.runTask, bind_eq_next, await_eq_next, pure_def, next.injEq] at taken
  obtain ⟨-, ⟨ht, hready⟩, rfl⟩ := taken
  have hd : s.Durable key task.pageData.llsn := by
    rcases h.task task ht with hd | ⟨hcan, hlsn, hi⟩
    · exact hd
    · rcases hready with hcan' | hzero | hle
      · rw [hcan] at hcan'
        cases hcan'
      · -- no record has the LSN zero
        obtain ⟨r, hr, -, hrl⟩ := hi
        have := (h.log task.src).positive r hr
        omega
      · refine durable_of_issued (h.log task.src) hi ?_
        rw [← hlsn]
        exact hle.trans (h.log task.src).ready
  have h₁ := h.send task.dest hd
  exact { h₁ with task := fun x hx => h₁.task x (List.mem_of_mem_erase hx)
                  call := fun x hx => { h₁.call x hx with }
                  evict := fun m e he => { h₁.evict m e he with } }

theorem step (hN : N < GPLM.EXCLUSIVE_LOCKED) (h : Inv key s) {a : Action N α}
    (taken : PageTransfer.step key s a = .next s') : Inv key s' := by
  cases a with
  | protocol a => exact h.step_protocol hN taken
  | log n a => exact h.step_log taken
  | write n f log => exact h.step_write hN taken
  | writeUnlogged n f => exact h.step_writeUnlogged hN taken
  | readStorage n f k => exact h.step_readStorage hN taken
  | pushArrive n page => exact h.step_pushArrive hN taken
  | startPush src c scheduled => exact h.step_startPush taken
  | pushWait call => exact h.step_pushWait taken
  | pushSend call => exact h.step_pushSend taken
  | schedule call => exact h.step_schedule taken
  | runTask task => exact h.step_runTask taken
  | evictStart n => exact h.step_evictStart taken
  | evictWait n => exact h.step_evictWait taken
  | evictAsk n => exact h.step_evictAsk taken

end Inv

theorem inv_init (hN : N < GPLM.EXCLUSIVE_LOCKED) (key : PageKey) (base : Page α) :
    Inv key (State.init base : State N α) where
  lock := lockInv_init hN base
  log _ := LogBuffer.logInv_init
  busy _ _ := Nat.zero_le _
  frame _ _ := .inl (.inl rfl)
  buffer := nofun
  call := nofun
  task := nofun
  evict := nofun
  pushes := nofun
  sent := nofun
  published := nofun

end PageTransfer
