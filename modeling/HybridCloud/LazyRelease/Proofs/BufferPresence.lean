import HybridCloud.LazyRelease.Proofs.PageCoherence

/-!
# When a page is in the buffer of a node

`CopyInv` says that a node with a lock has the page. The functions of the buffer pool need more:
whoever releases the page or gives it up finds it there, and whoever brings it does not.
-/

namespace LazyRelease

open GPLM Outcome

variable {N : Nat} {α : Type} {s s' : State N α} {n : NodeId N} {nd nd' : Node N α}
  {a b : AbsDirectory N}

/-- Where the page must be in the buffer, and where it must not. -/
structure PresenceInv (a : AbsDirectory N) (n : NodeId N) (nd : Node N α) : Prop where
  /-- A listed node has a lock until it gives the page up. -/
  mode : nd.fetches = [] → n ∈ a.holders → nd.giving = 0 → nd.lk.remoteMode ≠ .none
  giving : ∀ h ∈ nd.handlers, 0 < h.unlockRemote → nd.buffer ≠ none
  release : ∀ u ∈ nd.unlocks, u.fromRelease = true → nd.buffer ≠ none ∧ nd.evicts = []
  agreed : .agreed ∈ nd.evicts → nd.buffer ≠ none
  stored : ∀ f ∈ nd.fetches, ∀ lsn, f.stage = .answered (.storageFetch lsn) → nd.buffer = none
  /-- The page of a fetching node is what is left of its shared lock, or has been brought. -/
  held : ∀ f ∈ nd.fetches, nd.buffer ≠ none → nd.lk.remoteMode ≠ .none ∨
    0 < nd.arrived + nd.lk.updateSuccess.toNat ∨ f.hasPage = true ∨ 0 < nd.giving
  /-- A reader that joins others had no lock. -/
  joined : ∀ f ∈ nd.fetches, ∀ m, f.stage = .notifying m ∨ f.stage = .answered (.pushFrom m) →
    nd.lk.remoteMode = .none
  /-- A node that still has its shared lock is told that its page is the newest. -/
  older : (∃ g ∈ nd.grants, g.isNewest = false) ∨
    nd.lk.successReturn = true ∧ nd.lk.needWait = true → nd.lk.remoteMode = .none

namespace PresenceInv

theorem congr (h : PresenceInv a n nd) (hb : nd'.buffer = none ↔ nd.buffer = none)
    (hf : nd'.fetches = nd.fetches) (hh : nd'.handlers = nd.handlers)
    (hu : nd'.unlocks = nd.unlocks) (he : nd'.evicts = nd.evicts) (ha : nd'.arrived = nd.arrived)
    (hg : nd'.grants = nd.grants)
    (hlk : nd'.lk.remoteMode = nd.lk.remoteMode ∧ nd'.lk.updateSuccess = nd.lk.updateSuccess ∧
      nd'.lk.successReturn = nd.lk.successReturn ∧ nd'.lk.needWait = nd.lk.needWait) :
    PresenceInv a n nd' := by
  obtain ⟨hm, hup, hs, hw⟩ := hlk
  have hgive : nd'.giving = nd.giving := by simp only [Node.giving, hh, hu]
  constructor
  · rw [hf, hgive, hm]
    exact h.mode
  · rw [hh, Ne, hb]
    exact h.giving
  · rw [hu, he, Ne, hb]
    exact h.release
  · rw [he, Ne, hb]
    exact h.agreed
  · rw [hf, hb]
    exact h.stored
  · rw [hf, hgive, hm, ha, hup, Ne, hb]
    exact h.held
  · rw [hf, hm]
    exact h.joined
  · rw [hg, hs, hw, hm]
    exact h.older

theorem fetched (h : PresenceInv a n nd) {f : Fetch N} (hf : nd'.fetches = [f])
    (hpage : f.hasPage = true) (hb : nd'.buffer ≠ none) (hu : nd'.unlocks = nd.unlocks)
    (he : nd'.evicts = nd.evicts) (hg : nd'.grants = nd.grants)
    (hm : nd'.lk.remoteMode = nd.lk.remoteMode)
    (htold : nd'.lk.successReturn = true ∧ nd'.lk.needWait = true →
      nd.lk.successReturn = true ∧ nd.lk.needWait = true) : PresenceInv a n nd' := by
  constructor
  · simp [hf]
  · exact fun _ _ _ => hb
  · rw [hu, he]
    exact fun u hu hrel => ⟨hb, (h.release u hu hrel).2⟩
  · exact fun _ => hb
  · intro g hmem lsn hst
    rw [hf, List.mem_singleton] at hmem
    rw [← hmem, hasPage_of_stage hst] at hpage
    cases hpage
  · intro g hmem _
    rw [hf, List.mem_singleton] at hmem
    exact .inr (.inr (.inl (hmem ▸ hpage)))
  · intro g hmem m hst
    rw [hf, List.mem_singleton] at hmem
    rcases hst with hst | hst <;> rw [← hmem, hasPage_of_stage hst] at hpage <;> cases hpage
  · rw [hg, hm]
    exact fun hold => h.older (hold.imp_right htold)

theorem of_idle (hf : nd'.fetches = [])
    (mode : n ∈ a.holders → nd'.giving = 0 → nd'.lk.remoteMode ≠ .none)
    (giving : ∀ h ∈ nd'.handlers, 0 < h.unlockRemote → nd'.buffer ≠ none)
    (release : ∀ u ∈ nd'.unlocks, u.fromRelease = true → nd'.buffer ≠ none ∧ nd'.evicts = [])
    (agreed : .agreed ∈ nd'.evicts → nd'.buffer ≠ none)
    (older : (∃ g ∈ nd'.grants, g.isNewest = false) ∨
      nd'.lk.successReturn = true ∧ nd'.lk.needWait = true → nd'.lk.remoteMode = .none) :
    PresenceInv a n nd' := by
  refine ⟨fun _ => mode, giving, release, agreed, ?_, ?_, ?_, older⟩
  · simp [hf]
  · simp [hf]
  · simp [hf]

theorem not_release (h : PresenceInv a n nd) {e : Evict} (he : nd.evicts = [e]) {p : Prop} :
    ∀ u ∈ nd.unlocks, u.fromRelease = true → p := by
  intro u hu hrel
  have hnil := (h.release u hu hrel).2
  simp [he] at hnil

end PresenceInv

theorem PresenceInv.held_of_giving (h : PresenceInv a n nd) (hgiving : nd.giving = 0) {f : Fetch N}
    (hf : f ∈ nd.fetches) (hb : nd.buffer ≠ none) {p : Prop} : nd.lk.remoteMode ≠ .none ∨
      0 < nd.arrived + nd.lk.updateSuccess.toNat ∨ f.hasPage = true ∨ p := by
  rcases h.held f hf hb with hmode | hin | hpage | hpos
  · exact .inl hmode
  · exact .inr (.inl hin)
  · exact .inr (.inr (.inl hpage))
  · omega

/-- A node that neither asks the directory nor has a lock has no copy of the page. -/
theorem PresenceInv.absent_of_quiet (h : PresenceInv s.dir.view n (s.nodes n)) (hc : Coherent s)
    (ht : TransferInv s) (quiet : (s.nodes n).lk.Quiet)
    (hmode : (s.nodes n).lk.remoteMode = .none) : (s.nodes n).buffer = none := by
  have hi := (ht.lock.node n).idle quiet.not_granting
  obtain ⟨-, hhandlers, hunlocks⟩ := (ht.mutex n).releases_of_free quiet.free
  have hev := (ht.lock.node n).evicts_nil quiet.not_evicting
  have hgive : (s.nodes n).giving = 0 := by simp [Node.giving, hhandlers, hunlocks]
  by_contra hb
  rcases (hc.copy n).listed hb with hstale | hholder | hin
  · rcases hstale with ⟨u, hu, -⟩ | hagreed
    · simp [hunlocks] at hu
    · simp [hev] at hagreed
  · exact h.mode hi.fetches hholder hgive hmode
  · have := pushes_add_arrived (ht.push.inbound_of_idle hi)
    omega

theorem PresenceInv.owed_of_mode (h : PresenceInv a n nd) (hnode : NodeInv a n nd)
    (hmode : nd.lk.remoteMode ≠ .none) : nd.owed a n = 0 := by
  cases hnode.phase with
  | idle hi => exact owed_of_nil hi.fetches
  | @fetching f ha hp =>
    have hmem : f ∈ nd.fetches := by simp [ha.fetches]
    rw [owed_of_asking ha.fetches]
    cases hst : f.stage with
    | asking | granted | pushing pushList => simp [Fetch.owed, hst]
    | notifying m => exact absurd (h.joined f hmem m (.inl hst)) hmode
    | answered reply =>
      cases reply with
      | storageFetch lsn | localCopy => simp [Fetch.owed, hst]
      | pushFrom m => exact absurd (h.joined f hmem m (.inr hst)) hmode
      | waitLockRelease =>
        cases hp with
        | waiting _ _ hholds hstage =>
          have hq : n ∈ a.queued := by
            rcases hstage with ⟨hask, -⟩ | ⟨-, hq⟩
            · simp [hst] at hask
            · exact mem_queued.2 ⟨f.x, hq⟩
          simp [Fetch.owed, hst, hq, hholds.mem hmode]
        | served hg =>
          have hgrants : nd.grants.countP (fun g => !g.isNewest) = 0 := by
            refine List.countP_eq_zero.2 fun g hg hold => hmode (h.older (.inl ⟨g, hg, ?_⟩))
            simpa using hold
          have htold : (nd.lk.successReturn && nd.lk.needWait) = false := by
            by_contra htold
            exact hmode (h.older (.inr (by simpa using htold)))
          simp [Fetch.owed, hst, hg.unqueued, hgrants, htold]

theorem PresenceInv.absent_of_push (h : PresenceInv s.dir.view n (s.nodes n)) (ht : TransferInv s)
    {page : Page α} (mem : page ∈ (s.nodes n).pushes) : (s.nodes n).buffer = none := by
  have hpos := List.length_pos_of_mem mem
  have hbal := ht.push.balanced n
  have hle := (ht.lock.node n).owed_le_one
  rw [Node.inbound] at hbal
  by_contra hb
  cases (ht.lock.node n).phase with
  | idle hi =>
    rw [owed_of_nil hi.fetches] at hbal
    omega
  | @fetching f ha hp =>
    rcases h.held f (by simp [ha.fetches]) hb with hmode | harrived | hpage | hgiving
    · rw [h.owed_of_mode (ht.lock.node n) hmode] at hbal
      omega
    · omega
    · have howed : f.owed s.dir.view n (s.nodes n) = 0 := by
        unfold Fetch.hasPage at hpage
        unfold Fetch.owed
        split at hpage <;> simp_all
      rw [owed_of_asking ha.fetches, howed] at hbal
      omega
    · have hin := ht.push.inbound_of_giving ht.lock hgiving
      rw [Node.inbound] at hin
      omega

theorem Coherent.buffer_of_lock (h : Coherent s) (ht : TransferInv s)
    (hg : (s.nodes n).lk.isGranting = false) (hl : (s.nodes n).lk.lock ≠ 0) :
    (s.nodes n).buffer ≠ none ∧ (s.nodes n).evicts = [] ∧ (s.nodes n).lk.remoteMode ≠ .none := by
  have hi := (ht.lock.node n).idle hg
  have hmode : (s.nodes n).lk.remoteMode ≠ .none := fun hm => hl (hi.users.lock_eq_zero hm)
  have hev := (ht.lock.node n).evicts_nil ((ht.lock.node n).not_evicting hl)
  exact ⟨(h.copy n).kept hmode (by simp [hev]), hev, hmode⟩

/-- A node that gives the page up is listed, so none of its evictions has been agreed to. -/
theorem NodeInv.not_past_of_duties (h : NodeInv a n nd) (hpos : 0 < nd.duties) :
    nd.evicts.any Evict.past = false := by
  by_contra hpast
  simp only [Bool.not_eq_false] at hpast
  cases hphase : h.phase with
  | idle hi hst =>
    rw [if_pos hpast] at hst
    exact hst (h.duties_pended hpos).1
  | fetching ha => simp [h.evicts_nil_of_granting ha.granting] at hpast

theorem PresenceInv.dirStep (h : ∀ k, PresenceInv s.dir.view k (s.nodes k)) (hc : Coherent s)
    (ht : TransferInv s) {act : Action N α} (hs : DirStep s act s') (k : NodeId N) :
    PresenceInv s'.dir.view k (s'.nodes k) := by
  have heffect := hs.effect ht.lock k
  have hlisted := fun hk => hs.granting_of_listed ht.lock (k := k) hk
  have hk := h k
  -- a node that does not ask becomes no holder
  have hholder : (s.nodes k).fetches = [] → k ∈ s'.dir.view.holders → k ∈ s.dir.view.holders := by
    intro hf hmem
    rcases hlisted hmem with hold | hg
    · exact hold
    · cases (ht.lock.node k).phase with
      | idle hi => simp [hi.granting] at hg
      | fetching ha => simp [ha.fetches] at hf
  generalize s'.nodes k = nd at heffect ⊢
  cases heffect with
  | @message msgs kept newest older =>
    refine { hk with mode := fun hf hmem => hk.mode hf (hholder hf hmem), older := ?_ }
    rintro (⟨g, hg, hold⟩ | htold)
    · rcases List.mem_append.1 hg with hg | hg
      · exact hk.older (.inl ⟨g, hg, hold⟩)
      · -- a waiting node that is not listed has no lock
        obtain ⟨hunlisted, hqueued⟩ := older g hg hold
        cases (ht.lock.node k).phase with
        | idle hi => exact absurd hqueued hi.unqueued
        | fetching ha hp =>
          cases hp with
          | served hgr => exact absurd hqueued hgr.unqueued
          | waiting _ _ hholds =>
            by_contra hm
            exact hunlisted (hholds.mem hm)
    · exact hk.older (.inr htold)
  | @answered f stage msgs mem asking answer kept none_granted =>
    obtain ⟨ha, hp⟩ := (ht.lock.node k).fetch_of_mem mem
    have hfetches : (((s.nodes k).setStage f stage).receive k msgs).fetches = [⟨f.x, stage⟩] := by
      simp [Node.setStage, Node.receive, ha.fetches]
    have hholds : Holds s.dir.view k (s.nodes k).lk.remoteMode := by
      cases hp with
      | waiting _ _ hholds => exact hholds
      | served _ hst => exact absurd asking hst
    refine ⟨fun hf => ?_, hk.giving, hk.release, hk.agreed, ?_, ?_, ?_, ?_⟩
    · cases hf
    · intro g hg lsn hst
      rw [hfetches, List.mem_singleton] at hg
      subst hg
      cases answer with
      | wait | join | upgrade => cases hst
      | storage unheld =>
        by_contra hb
        rcases (hc.copy k).listed hb with hstale | hmem | hin
        · rcases hstale with ⟨u, hu, hrel, -⟩ | hagreed
          · exact absurd ha.granting (by simp [((ht.givenUp k).release u hu hrel).1])
          · simp [(ht.lock.node k).evicts_nil_of_granting ha.granting] at hagreed
        · simp [unheld] at hmem
        · have hbal := ht.push.balanced k
          rw [owed_of_asking ha.fetches, Node.inbound] at hbal
          simp only [Fetch.owed, asking] at hbal
          omega
    · intro g hg hb
      rcases hk.held f mem hb with hmode | hin | hpage | hgiving
      · exact .inl hmode
      · exact .inr (.inl hin)
      · rw [hasPage_of_stage asking] at hpage
        cases hpage
      · exact .inr (.inr (.inr hgiving))
    · intro g hg m hst
      rw [hfetches, List.mem_singleton] at hg
      subst hg
      cases answer with
      | wait | storage | upgrade => rcases hst with hst | hst <;> cases hst
      | join holder unlisted =>
        by_contra hm
        exact unlisted (hholds.mem hm)
    · rintro (⟨g, hg, hold⟩ | htold)
      · rcases List.mem_append.1 hg with hg | hg
        · exact hk.older (.inl ⟨g, hg, hold⟩)
        · simp [none_granted] at hg
      · exact hk.older (.inr htold)
  | @unlocked u msgs mem served left none_newest =>
    obtain ⟨-, -, hunlocks⟩ := (ht.mutex k).of_unlock mem
    have hmode : (s.nodes k).lk.remoteMode = .none := (ht.givenUp k).mode u mem
    refine ⟨fun hf hmem => ?_, hk.giving, ?_, hk.agreed, hk.stored, ?_, hk.joined, fun _ => hmode⟩
    · cases (ht.lock.node k).phase with
      | idle hi => simp [hi.granting] at left; exact absurd hmem left
      | fetching ha =>
        have hf' : (s.nodes k).fetches = [] := hf
        simp [ha.fetches] at hf'
    · intro v hv hrel
      simp only [Node.receive, hunlocks, List.erase_cons_head, List.mem_singleton] at hv
      subst hv
      exact hk.release u mem hrel
    · -- the handler that gave the page up has dropped it
      intro f hf hb
      have hf' : f ∈ (s.nodes k).fetches := hf
      obtain ⟨ha, -⟩ := (ht.lock.node k).fetch_of_mem hf'
      cases hrel : u.fromRelease with
      | true => exact absurd ha.granting (by simp [((ht.givenUp k).release u mem hrel).1])
      | false => exact absurd ((ht.givenUp k).dropped u mem hrel served) hb
  | @evicted lsn mem left holder queue =>
    obtain ⟨heq, hev⟩ := (ht.lock.node k).evicts_eq mem
    obtain ⟨-, hst⟩ := (ht.lock.node k).phase.idle_of_not_granting
      ((ht.lock.node k).evicting_idle hev).2.1
    -- the page has not been given up since the eviction looked at it
    have hmode : (s.nodes k).lk.remoteMode ≠ .none := by
      intro hm
      simp only [heq, List.any_cons, List.any_nil, Evict.past, Bool.or_self, Bool.false_eq_true,
        if_false, hm] at hst
      exact (hst holder).queue_ne_nil queue
    have hb : (s.nodes k).buffer ≠ none := (hc.copy k).kept hmode (by simp [heq, Evict.past])
    exact { hk with
      mode := fun _ hmem => absurd hmem left, release := hk.not_release heq, agreed := fun _ => hb }
  | @refused lsn mem same =>
    rw [same]
    obtain ⟨heq, -⟩ := (ht.lock.node k).evicts_eq mem
    exact { hk with release := hk.not_release heq, agreed := by simp [heq] }

section Step

variable [DecidableEq α]

theorem PresenceInv.step (hN : N < EXCLUSIVE_LOCKED)
    (h : ∀ k, PresenceInv s.dir.view k (s.nodes k)) (hc : Coherent s) (ht : TransferInv s)
    {act : Action N α} (hs : Step s act s') (k : NodeId N) :
    PresenceInv s'.dir.view k (s'.nodes k) := by
  have hlock := ht.lock
  have hset : ∀ {n : NodeId N} {nd : Node N α}, PresenceInv s.dir.view n nd →
      PresenceInv s.dir.view k ((s.setNode n nd).nodes k) := fun hnd =>
    forall_setNode (P := PresenceInv s.dir.view) h hnd k
  have hsent : ∀ {n : NodeId N} {dest : Option (NodeId N)} {nd : Node N α},
      PresenceInv s.dir.view n nd →
      PresenceInv (s.sent n dest).dir.view k (((s.sent n dest).setNode n nd).nodes k) := by
    intro n dest nd hnd
    rw [sent_dir]
    refine forall_setNode (P := PresenceInv s.dir.view) (forall_sent h fun d page _ _ => ?_) hnd k
    exact { h d with }
  have hdir := hlock.dirStep_of_step hN hs
  cases hs with
  | lockLocalS | lockLocalX | releaseS | releaseX | releaseKeep =>
    exact hset { h _ with }
  | @lockAskS n quiet lt mode =>
    have hb := (h n).absent_of_quiet hc ht quiet mode
    exact hset ⟨(by simp), (h n).giving, (h n).release, (h n).agreed, fun _ _ _ _ => hb,
      fun _ _ hne => absurd hb hne, fun _ _ _ _ => mode, (h n).older⟩
  | @lockAskX n quiet unused mode =>
    have hi := (hlock.node n).idle quiet.not_granting
    refine hset ⟨(by simp), (h n).giving, (h n).release, (h n).agreed, ?_, ?_, ?_, (h n).older⟩
    · intro f hf lsn hst
      simp only [hi.fetches, List.mem_singleton] at hf
      subst hf
      cases hst
    · intro f hf hb
      refine .inl fun hmode => hb ?_
      exact (h n).absent_of_quiet hc ht quiet hmode
    · intro f hf m hst
      simp only [hi.fetches, List.mem_singleton] at hf
      subst hf
      rcases hst with hst | hst <;> cases hst
  | dirLock | dirUnlock | dirEvict => exact PresenceInv.dirStep h hc ht (hdir rfl) k
  | @notifyPush n m f page mem stage buf =>
    obtain ⟨ha, -⟩ := (hlock.node n).fetch_of_mem mem
    have hmode := (h n).joined f mem m (.inl stage)
    have hn : PresenceInv s.dir.view n
        { (s.nodes n).setStage f (.answered (.pushFrom m)) with
          pushes := (s.nodes n).pushes ++ [page] } := by
      refine { h n with
        mode := by rintro ⟨⟩, stored := ?_, held := ?_, joined := fun _ _ _ _ => hmode }
      · intro g hg lsn hst
        simp only [Node.setStage, ha.fetches, List.erase_cons_head, List.mem_singleton] at hg
        subst hg
        cases hst
      · intro g hg hb
        rcases (h n).held f mem hb with hm | hin | hpage | hgiving
        · exact absurd hmode hm
        · exact .inr (.inl hin)
        · rw [hasPage_of_stage stage] at hpage
          cases hpage
        · exact .inr (.inr (.inr hgiving))
    exact hset hn
  | readStorage mem =>
    exact hset ((h _).fetched ((hlock.node _).setStage_fetches mem _) rfl (by simp) rfl rfl rfl rfl
      id)
  | @gotPush n m f mem stage free update =>
    have hb := (hc.copy n).arrived (by simp [update])
    exact hset ((h n).fetched ((hlock.node n).setStage_fetches mem _) rfl hb rfl rfl rfl rfl id)
  | @gotLock n f mem stage free success update =>
    have hb := hc.buffer_of_success ht mem success update
    exact hset ((h n).fetched ((hlock.node n).setStage_fetches mem _) rfl hb rfl rfl rfl rfl (by simp))
  | @takePushList n f mem stage =>
    have hb := (hc.copy n).fetched f mem (by rw [hasPage_of_stage stage]; rfl)
    exact hset ((h n).fetched ((hlock.node n).setStage_fetches mem _) rfl hb rfl rfl rfl rfl id)
  | @pushNext n d f pushList page mem stage buf =>
    rw [pushed_eq_sent buf]
    exact hsent ((h n).fetched ((hlock.node n).setStage_fetches mem _) rfl
      (by simp [Node.setStage, buf]) rfl rfl rfl rfl id)
  | @fetchDone n f mem stage buf =>
    obtain ⟨ha, -⟩ := (hlock.node n).fetch_of_mem mem
    have hnotice : (s.nodes n).grants = [] ∧ (s.nodes n).lk.successReturn = false := by
      obtain ⟨-, hp⟩ := (hlock.node n).fetch_of_mem mem
      cases hp with
      | waiting hgrants hsuccess => exact ⟨hgrants, hsuccess⟩
      | served _ _ notice =>
        rw [if_neg (by simp [stage])] at notice
        refine ⟨List.length_eq_zero_iff.1 (by omega), ?_⟩
        by_contra hsuccess
        simp [hsuccess] at notice
    have hfetches : (s.nodes n).fetches.erase f = [] := by simp [ha.fetches]
    refine hset (.of_idle hfetches (fun _ _ => ?_) (h n).giving (h n).release (h n).agreed ?_)
    · split <;> simp
    · simp [hnotice]
  | @write n f llsn page writer buf | @writeUnlogged n f page writer buf =>
    exact hset ((h n).congr (by simp [buf]) rfl rfl rfl rfl rfl rfl ⟨rfl, rfl, rfl, rfl⟩)
  | releasePush => exact hsent { h _ with }
  | @releaseEnd n r b mem pushed keeps =>
    have hi := (hlock.node n).idle_of_release mem
    have hu := r.unlocked_unlock b (s.nodes n).lk
    -- the last user of a page that is asked for does not keep it
    have hmode : (r.unlock b (s.nodes n).lk).remoteMode = (s.nodes n).lk.remoteMode := by
      rw [hu.mode, if_neg]
      rintro ⟨hpending, hzero⟩
      obtain ⟨hx, hone⟩ := (ht.asked n).release_keeps r mem keeps hpending
      have hne := hi.users.lock_ne_zero mem
      rw [hu.lock, hx] at hzero
      simp only [Bool.false_eq_true, if_false] at hzero
      omega
    refine hset ((h n).congr .rfl rfl rfl rfl rfl rfl rfl ⟨hmode, ?_, ?_, ?_⟩)
    · exact (congrArg LRLocalPageLock.updateSuccess hu.rest :)
    · exact (congrArg LRLocalPageLock.successReturn hu.rest :)
    · exact (congrArg LRLocalPageLock.needWait hu.rest :)
  | @releaseUnlock n r b mem pushed gives =>
    have hg := (hlock.node n).phase.not_granting_of_release mem
    have hi := (hlock.node n).idle hg
    obtain ⟨-, hhandlers, -⟩ := (ht.mutex n).of_release mem
    obtain ⟨hb, hev, -⟩ := hc.buffer_of_lock ht hg (hi.users.lock_ne_zero mem)
    have hu := r.unlocked_unlock b (s.nodes n).lk
    refine hset (.of_idle hi.fetches (fun _ hgiving => ?_) ?_ (fun _ _ _ => ⟨hb, hev⟩) (fun _ => hb)
      ?_)
    · simp [Node.giving] at hgiving
    · simp [hhandlers]
    · rintro (⟨g, hmem, -⟩ | ⟨hsuccess, -⟩)
      · simp [hi.grants] at hmem
      · rw [hu.rest] at hsuccess
        simp [hi.success] at hsuccess
  | @pending n p lk j mem _ free not_pending case =>
    have hpast : (s.nodes n).evicts.any Evict.past = false := by
      refine (hlock.node n).not_past_of_duties ?_
      have := List.length_pos_of_mem mem
      rw [Node.duties]
      omega
    obtain ⟨-, hhandlers, hunlocks⟩ := (ht.mutex n).releases_of_free free
    cases case with
    | unused hg hm hl hk =>
      have hi := (hlock.node n).idle hg
      have hb := (hc.copy n).kept hm hpast
      refine hset (.of_idle hi.fetches (fun _ hgiving => ?_) (fun _ _ _ => hb) (h n).release
        (h n).agreed fun _ => rfl)
      simp [Node.giving, hk] at hgiving
    | upgrading hg hm hl hx =>
      have hb := (hc.copy n).kept (by simp [hm]) hpast
      refine hset ⟨fun _ _ hgiving => ?_, fun _ _ _ => hb, (h n).release, (h n).agreed,
        (h n).stored, fun _ _ _ => .inr (.inr (.inr ?_)), fun _ _ _ _ => rfl, fun _ => rfl⟩
      · simp [Node.giving] at hgiving
      · simp [Node.giving]
    | used hg hm hl | granting hg hm =>
      have hzero : (s.nodes n).giving = 0 := by simp [Node.giving, hhandlers, hunlocks]
      refine hset { h n with
        mode := ?_, giving := ?_, held := fun f hf hb => (h n).held_of_giving hzero hf hb }
      · intro hf hholder hgiving
        refine (h n).mode hf hholder ?_
        simpa [Node.giving] using hgiving
      · intro q hq hpos
        rcases List.mem_cons.1 hq with rfl | hq
        · simp at hpos
        · exact (h n).giving q hq hpos
  | @pendingGive n p mem gives dest =>
    obtain ⟨-, hhandlers, hunlocks⟩ := (ht.mutex n).of_handler mem
    have hgiving := Node.giving_pos_of_handler mem gives
    have hpast : (s.nodes n).evicts.any Evict.past = false := by
      refine (hlock.node n).not_past_of_duties ?_
      rw [Node.duties]
      omega
    refine hsent ⟨fun _ _ hzero => ?_, ?_, ?_, fun hagreed => ?_, fun _ _ _ _ => rfl,
      fun _ _ hb => absurd rfl hb, (h n).joined, (h n).older⟩
    · simp [Node.giving] at hzero
    · simp [hhandlers]
    · simp [hunlocks]
    · have : (s.nodes n).evicts.any Evict.past = true := List.any_eq_true.2 ⟨_, hagreed, rfl⟩
      simp [hpast] at this
  | @pendingKeep n p mem keeps =>
    obtain ⟨-, hhandlers, hunlocks⟩ := (ht.mutex n).of_handler mem
    have hgiving : (s.nodes n).giving = 0 := by simp [Node.giving, hhandlers, hunlocks, keeps]
    refine hset { h n with
      mode := fun hf hholder _ => (h n).mode hf hholder hgiving, giving := ?_
      held := fun f hf hb => (h n).held_of_giving hgiving hf hb }
    simp [hhandlers]
  | @unlockReturn n u mem served =>
    obtain ⟨-, hhandlers, hunlocks⟩ := (ht.mutex n).of_unlock mem
    have hgiving : (s.nodes n).giving = 0 := by simp [Node.giving, hhandlers, hunlocks, served]
    cases hrel : u.fromRelease with
    | true =>
      obtain ⟨hg, hleft⟩ := (ht.givenUp n).release u mem hrel
      have hi := (hlock.node n).idle hg
      refine hset (.of_idle hi.fetches (fun hholder => absurd hholder (hleft served)) ?_ ?_ ?_
        (h n).older)
      · simp [hhandlers]
      · simp [hunlocks]
      · simp [((h n).release u mem hrel).2]
    | false =>
      refine hset { h n with
        mode := fun hf hholder _ => (h n).mode hf hholder hgiving, giving := ?_, release := ?_
        held := fun f hf hb => (h n).held_of_giving hgiving hf hb }
      · simp [hhandlers]
      · simp [hunlocks]
  | @pushArrive n page mem =>
    have hpos := List.length_pos_of_mem mem
    have hbal := ht.push.balanced n
    refine hset { h n with
      giving := fun _ _ _ => by simp, release := ?_, agreed := fun _ => by simp
      stored := ?_, held := ?_ }
    · exact fun u hu hrel => ⟨by simp, ((h n).release u hu hrel).2⟩
    · -- a fetch that reads storage is not entitled to a push
      intro f hf lsn hst
      obtain ⟨ha, -⟩ := (hlock.node n).fetch_of_mem hf
      rw [owed_of_asking ha.fetches, Node.inbound] at hbal
      simp only [Fetch.owed, hst] at hbal
      omega
    · exact fun _ _ _ => .inr (.inl (by simp only; omega))
  | @pushNotify n pos =>
    refine hset { h n with held := ?_ }
    exact fun _ _ _ => .inr (.inl (by simp only [Bool.toNat_true]; omega))
  | @lockSuccess n g mem =>
    refine hset { h n with older := ?_ }
    rintro (⟨g', hg', hold⟩ | ⟨-, hwait⟩)
    · exact (h n).older (.inl ⟨g', List.mem_of_mem_erase hg', hold⟩)
    · refine (h n).older (.inl ⟨g, mem, ?_⟩)
      simpa [LockSuccessRequest.notify] using hwait
  | @beginEvict n quiet =>
    obtain ⟨-, -, hunlocks⟩ := (ht.mutex n).releases_of_free quiet.free
    refine hset { h n with release := ?_, agreed := fun hagreed => (h n).agreed ?_ }
    · simp [hunlocks]
    · simpa using hagreed
  | @evictLost n mem | @evictNone n mem | @evictAsk n page mem | @endEvict n mem =>
    obtain ⟨heq, -⟩ := (hlock.node n).evicts_eq mem
    exact hset { h n with release := (h n).not_release heq, agreed := by simp [heq] }
  | @evictReplace n mem =>
    obtain ⟨heq, -⟩ := (hlock.node n).evicts_eq mem
    have hi := (hlock.node n).idle_of_evict mem
    have hst := (hlock.node n).left_of_past mem rfl
    refine hset (.of_idle hi.fetches (fun hholder => absurd hholder hst) ?_
      ((h n).not_release heq) (by simp [heq]) (h n).older)
    intro p hp hpos
    have hgiving : 0 < (s.nodes n).giving := Node.giving_pos_of_handler hp hpos
    exact absurd ((hlock.node n).duties_pended (by rw [Node.duties]; omega)).1 hst
  | @evictDone n mem =>
    obtain ⟨heq, -⟩ := (hlock.node n).evicts_eq mem
    have hi := (hlock.node n).idle_of_evict mem
    have hst := (hlock.node n).left_of_past mem rfl
    exact hset (.of_idle hi.fetches (fun hholder => absurd hholder hst) (h n).giving
      ((h n).not_release heq) (by simp [heq]) fun _ => rfl)

end Step

theorem presenceInv_init (base : Page α) (k : NodeId N) :
    PresenceInv (State.init base : State N α).dir.view k ((State.init base : State N α).nodes k)
    where
  mode _ hk := nomatch hk
  giving := nofun
  release := nofun
  agreed := nofun
  stored := nofun
  held := nofun
  joined := nofun
  older _ := rfl

/-- Everything that is known of a page while no eviction loses its victim and every change is
logged. -/
structure PageInv (s : State N α) : Prop extends TransferInv s where
  coherent : Coherent s
  presence : ∀ k, PresenceInv s.dir.view k (s.nodes k)

theorem pageInv_of_run [DecidableEq α] {base : Page α} (hN : N < EXCLUSIVE_LOCKED)
    (run : Run State.step (fun _ act => act.KeepsVictim ∧ act.Logged) (State.init base) s) :
    PageInv s := by
  have hknown : ∀ {s}, Run State.step (fun _ act => act.KeepsVictim ∧ act.Logged)
      (State.init base) s → TransferInv s := transferInv_of_run hN fun _ _ ok => ok.1
  have hcoherent : ∀ {s}, Run State.step (fun _ act => act.KeepsVictim ∧ act.Logged)
      (State.init base) s → TransferInv s ∧ Coherent s := fun run =>
    ⟨hknown run, run.invariant_under (P := Coherent) hknown (coherent_init base)
      fun hq _ h ok taken => h.step hN hq ok.2 (step_cases taken)⟩
  exact {
    hknown run with
    coherent := (hcoherent run).2
    presence := run.invariant_under (P := fun s => ∀ k, PresenceInv s.dir.view k (s.nodes k))
      hcoherent (presenceInv_init base)
      fun hq _ h _ taken => PresenceInv.step hN h hq.2 hq.1 (step_cases taken) }

variable [DecidableEq α] {base : Page α}

/-- With no victim lost, the holders other than the node of the oldest request, and only they, have
been asked for the page, once, and have not yet told the directory that they give it up. -/
theorem holders_asked_once (hN : N < EXCLUSIVE_LOCKED)
    (run : Run State.step (fun _ act => act.KeepsVictim) (State.init base) s) (n : NodeId N) :
    (s.nodes n).duties ≤ 1 ∧ ((s.nodes n).duties = 1 ↔ n ∈ s.dir.gl.holdLockNodes ∧
      ∃ r rs, s.dir.gl.requestQueue = r :: rs ∧ r.nodeId ≠ n) := by
  have h := protocolInv_of_run hN (fun _ _ ok => ok) run
  have hle := (h.lock.node n).duties_le
  refine ⟨hle, fun hone => (h.lock.node n).duties_pended (by omega), fun hp => ?_⟩
  have hpos := (h.asked n).asked hp
  omega

/-- Node 1 waits for the page, and node 0 is asked for it. -/
theorem holders_asked_once_waiting : ∃ s : State 2 Nat, s.dir.gl.requestQueue = [⟨1, false⟩] ∧
    (s.nodes 0).duties = 1 := by
  obtain ⟨s, run, hs⟩ := Run.of_reaches State.step (fun _ act => act.KeepsVictim)
    ((sharedReadRun 5).take 16) (State.init ⟨0, 0⟩) (fun s => decide
      (s.dir.gl.requestQueue = [⟨1, false⟩] ∧ 0 ∈ s.dir.gl.holdLockNodes)) (by decide +kernel)
  obtain ⟨hqueue, hn⟩ := of_decide_eq_true hs
  exact ⟨s, hqueue, (holders_asked_once (by decide) run 0).2.2 ⟨hn, _, _, hqueue, by decide⟩⟩

end LazyRelease
