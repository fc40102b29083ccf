import HybridCloud.LazyRelease.PageTransfer
import HybridCloud.LazyRelease.Proofs.MutexDiscipline

/-!
# The threads that push the page

While a thread is inside of `PushPageToOther`, its record in the protocol stays where it is, and so
the lock that it holds keeps writers away. `Leaves s s' src c` says that a step takes at most one
thread away from the places where `PushPageToOther` is called, one that is there as `c` on node
`src`.
-/

namespace PageTransfer

open GPLM LazyRelease Logging Storage Outcome Function

variable {N : Nat} {α : Type} {s s' : LazyRelease.State N α} {n src : NodeId N} {c : Caller N}

attribute [local simp] LazyRelease.State.setNode

theorem alone_of_writer (h : LockInv s) (hw : 0 < (s.nodes n).writers) :
    s.dir.view.holders = [n] ∧ (s.nodes n).fetches = [] ∧ (s.nodes n).releases = [] ∧
      (s.nodes n).giving = 0 ∧ (s.nodes n).evicts = [] := by
  obtain ⟨hi, -, hm, hreleases, hevicts, hholders, -⟩ := h.of_writer hw
  refine ⟨hholders, hi.fetches, hreleases, ?_, hevicts⟩
  by_contra hg
  have hnone := (h.node n).giving_mode (Nat.pos_of_ne_zero hg)
  rw [hm] at hnone
  cases hnone

theorem no_writer_of_atPush (h : LockInv s) (hc : 0 < atPush s src c) :
    (s.nodes src).writers = 0 := by
  by_contra hw
  obtain ⟨hholders, hfetches, hreleases, hgiving, -⟩ := alone_of_writer h (Nat.pos_of_ne_zero hw)
  cases c with
  | release r =>
    simp [atPush, hreleases] at hc
  | pending p =>
    simp only [atPush] at hc
    split at hc
    · rename_i hpos
      have hmem : p ∈ (s.nodes src).handlers := List.count_pos_iff.1 hc
      have : 0 < (s.nodes src).handlers.countP fun h => decide (0 < h.unlockRemote) :=
        List.countP_pos_iff.2 ⟨p, hmem, by simpa using hpos⟩
      simp only [Node.giving] at hgiving
      omega
    · cases hc
  | notify m f =>
    simp only [atPush] at hc
    split at hc
    · rename_i hstage
      have hmem : f ∈ (s.nodes m).fetches := List.count_pos_iff.1 hc
      cases ((h.node m).fetch_of_mem hmem).2 with
      | waiting _ _ _ hst => simp [hstage] at hst
      | served hg =>
        -- the node that fetches the page is listed as well
        have hm := hg.holder
        rw [hholders, List.mem_singleton] at hm
        rw [hm, hfetches] at hmem
        cases hmem
    · cases hc
  | fetch f =>
    simp only [atPush] at hc
    split at hc
    · simp [hfetches] at hc
    · cases hc

/-- At most one thread, there as `c` on node `src`, goes on. -/
def Leaves (s s' : LazyRelease.State N α) (src : NodeId N) (c : Caller N) : Prop :=
  ∀ n c', atPush s n c' ≤ atPush s' n c' + if n = src ∧ c' = c then 1 else 0

/-- A fetch in one of the two places where the page is pushed. -/
def pushesPage (f : Fetch N) : Bool :=
  match f.stage with
  | .notifying _ | .pushing (_ :: _) => true
  | _ => false

/-- A node keeps the threads that are about to push. -/
structure Stays (nd nd' : Node N α) : Prop where
  releases : ∀ r, r.pushed = none → nd.releases.count r ≤ nd'.releases.count r
  handlers : ∀ h, 0 < h.unlockRemote → nd.handlers.count h ≤ nd'.handlers.count h
  fetches : ∀ f, pushesPage f = true → nd.fetches.count f ≤ nd'.fetches.count f

variable {msgs : List (DirMsg N)}

namespace Stays

variable {nd nd' : Node N α}

theorem of_eq (hr : nd'.releases = nd.releases) (hh : nd'.handlers = nd.handlers)
    (hf : nd'.fetches = nd.fetches) : Stays nd nd' :=
  ⟨fun _ _ => by rw [hr], fun _ _ => by rw [hh], fun _ _ => by rw [hf]⟩

theorem setNode (h : Stays (s.nodes n) nd) (m : NodeId N) :
    Stays (s.nodes m) ((s.setNode n nd).nodes m) := by
  by_cases hm : m = n
  · subst hm
    simpa using h
  · simpa [update, hm] using of_eq rfl rfl rfl

theorem afterDir (h : Stays (s.nodes n) nd) {d : Directory N} (m : NodeId N) :
    Stays (s.nodes m) ((s.afterDir d msgs n nd).nodes m) :=
  ⟨(h.setNode m).releases, (h.setNode m).handlers, (h.setNode m).fetches⟩

theorem setStage {f : Fetch N} (hf : pushesPage f = false) (stage : FetchStage N) :
    Stays nd (nd.setStage f stage) := by
  refine ⟨fun _ _ => le_rfl, fun _ _ => le_rfl, fun g hg => ?_⟩
  have hne : g ≠ f := by
    rintro rfl
    rw [hf] at hg
    cases hg
  show nd.fetches.count g ≤ (_ :: nd.fetches.erase f).count g
  rw [List.count_cons, List.count_erase_of_ne hne]
  exact Nat.le_add_right _ _

theorem atPush_le (h : ∀ m, Stays (s.nodes m) (s'.nodes m)) (n : NodeId N) (c : Caller N) :
    atPush s n c ≤ atPush s' n c := by
  cases c with
  | release r =>
    simp only [atPush]
    split
    · exact (h n).releases r ‹_›
    · exact le_rfl
  | pending p =>
    simp only [atPush]
    split
    · exact (h n).handlers p ‹_›
    · exact le_rfl
  | notify m f =>
    simp only [atPush]
    split
    · exact (h m).fetches f (by simp [pushesPage, *])
    · exact le_rfl
  | fetch f =>
    simp only [atPush]
    split
    · exact (h n).fetches f (by simp [pushesPage, *])
    · exact le_rfl

end Stays

/-- The steps that take a thread away from the place where it pushes. -/
def leavesPush : LazyRelease.Action N α → Bool
  | .notifyPush _ _ | .pushNext _ _ | .releasePush _ _ => true
  | .pendingFinish _ h => 0 < h.unlockRemote
  | _ => false

variable {a : LazyRelease.Action N α}

/-- A call stays at its push until its own step. -/
theorem stays_step [DecidableEq α] (hs : Step s a s') (ha : leavesPush a = false) (m : NodeId N) :
    Stays (s.nodes m) (s'.nodes m) := by
  cases hs with
  | lockLocalS | lockLocalX | write | writeUnlogged | unlockReturn | pushArrive | pushNotify
  | lockSuccess | beginEvict | evictLost | evictNone | evictAsk | evictReplace | evictDone
  | endEvict | dirEvict =>
    refine Stays.setNode ?_ m
    exact .of_eq rfl rfl rfl
  | lockAskS | lockAskX =>
    refine Stays.setNode ?_ m
    refine ⟨fun _ _ => le_rfl, fun _ _ => le_rfl, fun f _ => ?_⟩
    exact List.count_le_count_cons
  | dirLock mem stage =>
    refine Stays.afterDir ?_ m
    exact .setStage (by simp [pushesPage, stage]) _
  | notifyPush | pushNext | releaseKeep | releasePush => cases ha
  | readStorage mem stage | gotPush mem stage | gotLock mem stage | takePushList mem stage =>
    refine Stays.setNode ?_ m
    exact { Stays.setStage (by simp [pushesPage, stage]) _ with }
  | @fetchDone n f mem stage =>
    refine Stays.setNode ?_ m
    refine ⟨fun _ _ => le_rfl, fun _ _ => le_rfl, fun g hg => ?_⟩
    have hne : g ≠ f := by
      rintro rfl
      simp [pushesPage, stage] at hg
    rw [List.count_erase_of_ne hne]
  | releaseS | releaseX =>
    refine Stays.setNode ?_ m
    refine ⟨fun r _ => ?_, fun _ _ => le_rfl, fun _ _ => le_rfl⟩
    exact List.count_le_count_cons
  | @releaseEnd n r b mem pushed | @releaseUnlock n r b mem pushed =>
    refine Stays.setNode ?_ m
    refine ⟨fun r' hr' => ?_, fun _ _ => le_rfl, fun _ _ => le_rfl⟩
    have hne : r' ≠ r := by
      rintro rfl
      rw [pushed] at hr'
      cases hr'
    rw [List.count_erase_of_ne hne]
  | pending =>
    refine Stays.setNode ?_ m
    refine ⟨fun _ _ => le_rfl, fun h _ => ?_, fun _ _ => le_rfl⟩
    exact List.count_le_count_cons
  | pendingGive mem gives => simp [leavesPush, gives] at ha
  | @pendingKeep n p mem keeps =>
    refine Stays.setNode ?_ m
    refine ⟨fun _ _ => le_rfl, fun h hh => ?_, fun _ _ => le_rfl⟩
    have hne : h ≠ p := by
      rintro rfl
      omega
    rw [List.count_erase_of_ne hne]
  | dirUnlock => 
    refine Stays.afterDir ?_ m
    exact .of_eq rfl rfl rfl

theorem count_le_replace {β : Type} [DecidableEq β] (l : List β) (x y b : β) :
    l.count x ≤ (y :: l.erase b).count x + if x = b then 1 else 0 := by
  rw [List.count_cons, List.count_erase]
  by_cases hx : x = b
  · subst hx
    simp only [beq_self_eq_true, ite_true]
    omega
  · simp only [beq_iff_eq, Ne.symm hx, hx, ite_false]
    omega

theorem count_le_setNode {β : Type} [DecidableEq β] (F : Node N α → List β) {nd : Node N α}
    (m : NodeId N) (x : β) (k : Nat) (h : F nd = F (s.nodes n)) :
    (F (s.nodes m)).count x ≤ (F ((s.setNode n nd).nodes m)).count x + k := by
  by_cases hm : m = n
  · subst hm
    simp [h]
  · simp [update, hm]

namespace Leaves

theorem of_counts
    (releases : ∀ n r, r.pushed = none → (s.nodes n).releases.count r ≤
      (s'.nodes n).releases.count r + if n = src ∧ .release r = c then 1 else 0)
    (handlers : ∀ n h, 0 < h.unlockRemote → (s.nodes n).handlers.count h ≤
      (s'.nodes n).handlers.count h + if n = src ∧ .pending h = c then 1 else 0)
    (notifying : ∀ n m f, f.stage = .notifying n → (s.nodes m).fetches.count f ≤
      (s'.nodes m).fetches.count f + if n = src ∧ .notify m f = c then 1 else 0)
    (pushing : ∀ n f d ds, f.stage = .pushing (d :: ds) → (s.nodes n).fetches.count f ≤
      (s'.nodes n).fetches.count f + if n = src ∧ .fetch f = c then 1 else 0) :
    Leaves s s' src c := by
  intro n c'
  cases c' with
  | release r =>
    simp only [atPush]
    split
    · exact releases n r ‹_›
    · exact Nat.zero_le _
  | pending h =>
    simp only [atPush]
    split
    · exact handlers n h ‹_›
    · exact Nat.zero_le _
  | notify m f =>
    simp only [atPush]
    split
    · exact notifying n m f ‹_›
    · exact Nat.zero_le _
  | fetch f =>
    simp only [atPush]
    split
    · exact pushing n f _ _ ‹_›
    · exact Nat.zero_le _

theorem release (r r' : Release) :
    Leaves s (s.setNode src { s.nodes src with releases := r' :: (s.nodes src).releases.erase r })
      src (.release r) := by
  refine of_counts (fun n x _ => ?_) (fun n x _ => ?_) (fun _ n x _ => ?_) fun n x _ _ _ => ?_
  · by_cases hn : n = src
    · subst hn
      simpa using count_le_replace _ x r' r
    · simp [update, hn]
  · refine count_le_setNode Node.handlers n x _ ?_
    rfl
  · refine count_le_setNode Node.fetches n x _ ?_
    rfl
  · refine count_le_setNode Node.fetches n x _ ?_
    rfl

theorem pending (h : PendingHandler N) (buffer : Option (Page α)) (unlocks : List UnlockCall) :
    Leaves s (s.setNode src { s.nodes src with
      buffer := buffer, handlers := (s.nodes src).handlers.erase h, unlocks := unlocks })
      src (.pending h) := by
  refine of_counts (fun n x _ => ?_) (fun n x _ => ?_) (fun _ n x _ => ?_) fun n x _ _ _ => ?_
  · refine count_le_setNode Node.releases n x _ ?_
    rfl
  · by_cases hn : n = src
    · subst hn
      simp only [LazyRelease.State.setNode, update_self, true_and, Caller.pending.injEq,
        List.count_erase, beq_iff_eq]
      split <;> rename_i hx
      · subst hx
        simp only [ite_true]
        omega
      · exact Nat.le_add_right _ _
    · simp [update, hn]
  · refine count_le_setNode Node.fetches n x _ ?_
    rfl
  · refine count_le_setNode Node.fetches n x _ ?_
    rfl

theorem setStage {m : NodeId N} {f : Fetch N} {stage : FetchStage N}
    (notifying : ∀ n, f.stage = .notifying n → n = src ∧ .notify m f = c)
    (pushing : ∀ d ds, f.stage = .pushing (d :: ds) → m = src ∧ .fetch f = c) :
    Leaves s (s.setNode m ((s.nodes m).setStage f stage)) src c := by
  have hcount : ∀ k x, (s.nodes k).fetches.count x ≤
      ((s.setNode m ((s.nodes m).setStage f stage)).nodes k).fetches.count x +
        if k = m ∧ x = f then 1 else 0 := by
    intro k x
    by_cases hk : k = m
    · subst hk
      simpa [Node.setStage] using count_le_replace _ x { f with stage } f
    · simp [update, hk]
  refine of_counts (fun n x _ => ?_) (fun n x _ => ?_) (fun n k x hx => ?_) fun n x d ds hx => ?_
  · refine count_le_setNode Node.releases n x _ ?_
    rfl
  · refine count_le_setNode Node.handlers n x _ ?_
    rfl
  · refine (hcount k x).trans (Nat.add_le_add_left ?_ _)
    split <;> rename_i h
    · obtain ⟨rfl, rfl⟩ := h
      obtain ⟨rfl, rfl⟩ := notifying n hx
      simp
    · exact Nat.zero_le _
  · refine (hcount n x).trans (Nat.add_le_add_left ?_ _)
    split <;> rename_i h
    · obtain ⟨rfl, rfl⟩ := h
      obtain ⟨rfl, rfl⟩ := pushing d ds hx
      simp
    · exact Nat.zero_le _

end Leaves

/-- No image comes into a buffer or on its way, and the evictions that wait for the log stay. -/
structure Quiet (waits : NodeId N → Prop) (s s' : LazyRelease.State N α) : Prop where
  base : s'.base = s.base
  buffer : ∀ n page, (s'.nodes n).buffer = some page → (s.nodes n).buffer = some page
  pushes : ∀ n, (s'.nodes n).pushes ⊆ (s.nodes n).pushes
  chosen : ∀ n, waits n → .chosen ∈ (s.nodes n).evicts → .chosen ∈ (s'.nodes n).evicts

namespace Quiet

variable {waits : NodeId N → Prop} {nd : Node N α}

theorem setNode (buffer : ∀ page, nd.buffer = some page → (s.nodes n).buffer = some page)
    (pushes : nd.pushes = (s.nodes n).pushes)
    (chosen : waits n → .chosen ∈ (s.nodes n).evicts → .chosen ∈ nd.evicts) :
    Quiet waits s (s.setNode n nd) := by
  refine ⟨rfl, fun m => ?_, fun m => ?_, fun m => ?_⟩ <;> by_cases hm : m = n
  · subst hm
    simpa using buffer
  · simp [update, hm]
  · subst hm
    simp [pushes]
  · simp [update, hm]
  · subst hm
    simpa using chosen
  · simp [update, hm]

theorem of_node (buffer : nd.buffer = (s.nodes n).buffer)
    (pushes : nd.pushes = (s.nodes n).pushes) (evicts : nd.evicts = (s.nodes n).evicts) :
    Quiet waits s (s.setNode n nd) :=
  setNode (fun _ h => buffer ▸ h) pushes (fun _ h => evicts ▸ h)

theorem afterDir (buffer : nd.buffer = (s.nodes n).buffer)
    (pushes : nd.pushes = (s.nodes n).pushes) (evicts : nd.evicts = (s.nodes n).evicts)
    {d : Directory N} : Quiet waits s (s.afterDir d msgs n nd) := by
  have h : Quiet waits s (s.setNode n nd) := of_node buffer pushes evicts
  exact ⟨rfl, h.buffer, h.pushes, h.chosen⟩

theorem dir (h : Quiet waits s s') (d : Directory N) : Quiet waits s { s' with dir := d } :=
  ⟨h.base, h.buffer, h.pushes, h.chosen⟩

theorem setEvict {lk : LRLocalPageLock N} {e e' : Evict} (he : e ≠ .chosen) :
    Quiet waits s (s.setEvict n lk e e') :=
  setNode (fun _ h => h) rfl fun _ h =>
    List.mem_cons_of_mem _ ((List.mem_erase_of_ne he.symm).2 h)

end Quiet

theorem quiet_protocol [DecidableEq α] {t : State N α} (hs : Step t.sys a s')
    (hp : t.plain a = true) : Quiet (fun n => t.evict n ≠ none) t.sys s' := by
  cases hs with
  | write | writeUnlogged | readStorage | pushArrive | evictNone | evictAsk | notifyPush | pushNext =>
    cases hp
  | lockLocalS | lockAskS | lockLocalX | lockAskX | gotPush | gotLock | takePushList | fetchDone
  | releaseS | releaseX | releaseKeep | releaseEnd | releaseUnlock | pending | pendingKeep
  | pushNotify | lockSuccess =>
    apply Quiet.of_node <;> rfl
  | dirLock | dirUnlock => apply Quiet.afterDir <;> rfl
  | @releasePush n r mem pushed pushes =>
    simp only [State.plain, destOf, if_neg pushes, Bool.decide_and, Bool.and_eq_true,
      decide_eq_true_eq] at hp
    rw [hp.1]
    apply Quiet.of_node <;> rfl
  | @pendingGive n h mem gives =>
    have hdest : h.dest = none := by
      simp only [State.plain, decide_eq_true_eq] at hp
      rcases hp with hz | hd
      · omega
      · exact hd.1
    rw [hdest]
    exact Quiet.setNode nofun rfl fun _ h => h
  | unlockReturn =>
    refine Quiet.setNode (fun page h => ?_) rfl fun _ h => h
    split at h
    · cases h
    · exact h
  | beginEvict => exact Quiet.setNode (fun _ h => h) rfl fun _ h => List.mem_cons_of_mem _ h
  | evictLost =>
    refine Quiet.setNode (fun _ h => h) rfl fun hw _ => ?_
    exact absurd (by simpa [State.plain] using hp) hw
  | dirEvict =>
    refine Quiet.dir (Quiet.setEvict ?_) _
    exact nofun
  | evictReplace =>
    refine Quiet.setNode nofun rfl fun _ h =>
      List.mem_cons_of_mem _ ((List.mem_erase_of_ne ?_).2 h)
    exact nofun
  | evictDone =>
    refine Quiet.setEvict ?_
    exact nofun
  | endEvict =>
    refine Quiet.setNode (fun _ h => h) rfl fun _ h => (List.mem_erase_of_ne ?_).2 h
    exact nofun

theorem busy_protocol [DecidableEq α] {t : State N α}
    (hbusy : ∀ n c, t.busy n c ≤ atPush t.sys n c) (hs : Step t.sys a s') (hp : t.plain a = true)
    (n : NodeId N) (c : Caller N) : t.busy n c ≤ atPush s' n c := by
  have of_leaves : ∀ {src c'}, Leaves t.sys s' src c' → t.busy src c' < atPush t.sys src c' →
      t.busy n c ≤ atPush s' n c := by
    intro src c' hl hlt
    have hle := hl n c
    split at hle
    · rename_i h
      obtain ⟨rfl, rfl⟩ := h
      omega
    · exact (hbusy n c).trans hle
  by_cases ha : leavesPush a = true
  · cases hs with
    | notifyPush | pushNext => cases hp
    | releaseKeep =>
      simp only [State.plain, Bool.decide_and, Bool.and_eq_true, decide_eq_true_eq] at hp
      exact of_leaves (Leaves.release _ _) hp.2
    | @releasePush m r mem pushed pushes =>
      simp only [State.plain, destOf, if_neg pushes, Bool.decide_and, Bool.and_eq_true,
        decide_eq_true_eq] at hp
      rw [hp.1] at of_leaves ⊢
      exact of_leaves (Leaves.release _ _) hp.2
    | @pendingGive m h mem gives =>
      simp only [State.plain, decide_eq_true_eq] at hp
      rcases hp with hz | ⟨hd, hlt⟩
      · omega
      · rw [hd] at of_leaves ⊢
        exact of_leaves (Leaves.pending _ _ _) hlt
    | @pendingKeep m h mem keeps => simp [leavesPush, keeps] at ha
    | _ => cases ha
  · exact (hbusy n c).trans (Stays.atPush_le (stays_step hs (by simpa using ha)) n c)

theorem atPush_sendPage (s : LazyRelease.State N α) (dest : NodeId N) (page : Page α) :
    atPush (sendPage s dest page) n c = atPush s n c := by
  refine Nat.le_antisymm ?_ ?_
  · refine Stays.atPush_le (fun m => ?_) n c
    have h : Stays (sendPage s dest page |>.nodes dest) (s.nodes dest) := by
      refine .of_eq ?_ ?_ ?_ <;> simp [sendPage]
    by_cases hm : m = dest
    · exact hm ▸ h
    · simpa [sendPage, update, hm] using Stays.of_eq rfl rfl rfl
  · refine Stays.atPush_le (fun m => Stays.setNode ?_ m) n c
    exact .of_eq rfl rfl rfl

/-- What the caller does after `PushPageToOther`. -/
structure GoesOn (s s' : LazyRelease.State N α) (src : NodeId N) (c : Caller N) : Prop where
  leaves : Leaves s s' src c
  quiet : ∀ waits, Quiet waits s s'
  lock : LockInv s → LockInv s'
  moves : ∀ m, MutexMove (s.nodes m) (s'.nodes m)

/-- After a push the call goes on. -/
theorem afterPush_next (hs : afterPush s src c = .next s') (hc : 0 < atPush s src c) :
    GoesOn s s' src c := by
  cases c with
  | release r =>
    simp only [afterPush, pure_def, next.injEq] at hs
    subst hs
    have hmem : r ∈ (s.nodes src).releases := by
      simp only [atPush] at hc
      split at hc
      · exact List.count_pos_iff.1 hc
      · cases hc
    refine ⟨.release _ _, fun _ => ?_, fun h => ?_, MutexMove.setNode ?_⟩
    · apply Quiet.of_node <;> rfl
    · exact h.setNode ((h.node src).releaseStage hmem _)
    · refine .of_lk rfl ?_
      have := Counting.length_erase_add hmem
      simp only [Node.windows, List.length_cons]
      omega
  | pending p =>
    simp only [afterPush, bind_eq_next, cassert_eq_next, pure_def, next.injEq] at hs
    obtain ⟨-, -, rfl⟩ := hs
    simp only [atPush] at hc
    split at hc
    · rename_i gives
      have hmem : p ∈ (s.nodes src).handlers := List.count_pos_iff.1 hc
      refine ⟨.pending _ _ _, fun _ => Quiet.setNode (by simp) rfl fun _ h => h, fun h => ?_,
        MutexMove.setNode ?_⟩
      · refine h.setNode (((h.node src).handOver ((s.nodes src).handlers.erase p)
          (⟨false, false⟩ :: (s.nodes src).unlocks) ?_).congr rfl rfl)
        have := Counting.countP_erase_add
          (fun p : PendingHandler N => decide (0 < p.unlockRemote)) hmem
        simp only [gives, decide_true, ite_true] at this
        simp only [Node.giving, List.countP_cons, Bool.not_false, ite_true]
        omega
      · refine .of_lk rfl ?_
        have := Counting.length_erase_add hmem
        simp only [Node.windows, List.length_cons]
        omega
    · cases hc
  | notify n f =>
    simp only [afterPush, pure_def, next.injEq] at hs
    subst hs
    simp only [atPush] at hc
    split at hc
    · rename_i hstage
      have hmem : f ∈ (s.nodes n).fetches := List.count_pos_iff.1 hc
      have hl : Leaves s (s.setNode n ((s.nodes n).setStage f (.answered (.pushFrom src)))) src
          (.notify n f) := by
        refine .setStage (fun m hm => ?_) fun d ds hd => ?_
        · rw [hstage] at hm
          exact ⟨(FetchStage.notifying.inj hm).symm, rfl⟩
        · rw [hstage] at hd
          cases hd
      refine ⟨hl, fun _ => Quiet.dir ?_ _, fun h => ?_, fun m => MutexMove.setNode ?_ m⟩
      rotate_right
      · exact .of_lk rfl rfl
      · apply Quiet.of_node <;> rfl
      · have h' := h.setNode ((h.node n).setStage hmem (by simp [hstage]) (by simp [hstage])
          (.answered (.pushFrom src)) (by simp) (by simp))
        obtain ⟨hd, hv⟩ := h.sound.notifyPushPageDone
        refine ⟨hd, fun k => ?_⟩
        show NodeInv s.dir.notifyPushPageDone.view k _
        exact h'.node k
    · cases hc
  | fetch f =>
    simp only [atPush] at hc
    split at hc
    · rename_i d ds hstage
      have hmem : f ∈ (s.nodes src).fetches := List.count_pos_iff.1 hc
      simp only [afterPush, hstage, pure_def, next.injEq] at hs
      subst hs
      refine ⟨.setStage (fun m hm => ?_) fun _ _ _ => ⟨rfl, rfl⟩, fun _ => ?_, fun h => ?_,
        MutexMove.setNode ?_⟩
      rotate_right
      · exact .of_lk rfl rfl
      · rw [hstage] at hm
        cases hm
      · apply Quiet.of_node <;> rfl
      · exact h.setNode ((h.node src).setStage hmem (by simp [hstage]) (by simp [hstage]) _
          (by simp) (by simp))
    · cases hc

end PageTransfer
