import HybridCloud.LazyRelease.Proofs.CallsInFlight

/-!
# Whoever uses the page has its newest image

`CopyInv` says that every copy on a node or on its way to one is the image that the last writer
left, unless the node is about to drop it (`Node.Stale`), and that a node that has a lock, or has
been told that the page is there, has a copy. `SourceInv` says where the next copy may come from: a
holder that pushes on behalf of the directory, or storage at the LLSN of the page when its last
holder evicted it. A change that is not logged does not raise the LLSN, so a later read from storage
does not wait for it.
-/

namespace LazyRelease

open GPLM Outcome Function

variable {N : Nat} {α : Type} {s s' : State N α} {n : NodeId N} {nd nd' : Node N α}
  {a b : AbsDirectory N} {cur base : Page α} {log : List (Nat × (α → α))}

/-- The current image is what the whole log yields, and a part of the log yields a smaller LLSN. -/
structure LogInv (base : Page α) (log : List (Nat × (α → α))) (cur : Page α) : Prop where
  replayed : replay base log = cur
  older : ∀ k < log.length, (replay base (log.take k)).llsn < cur.llsn

theorem replay_append (base : Page α) (log : List (Nat × (α → α))) (r : Nat × (α → α)) :
    replay base (log ++ [r]) = ⟨r.1, r.2 (replay base log).data⟩ := by
  simp [replay]

theorem LogInv.append (h : LogInv base log cur) {llsn : Nat} (f : α → α) (lt : cur.llsn < llsn) :
    LogInv base (log ++ [(llsn, f)]) ⟨llsn, f cur.data⟩ where
  replayed := by rw [replay_append, h.replayed]
  older := by
    intro k hk
    rw [List.length_append, List.length_singleton] at hk
    rcases Nat.lt_succ_iff_lt_or_eq.1 hk with hlt | heq
    · rw [List.take_append_of_le_length hlt.le]
      exact (h.older k hlt).trans lt
    · rw [heq, List.take_left, h.replayed]
      exact lt

/-- `lsn` is the LLSN of the current image, or nothing has been logged yet. -/
def Current (cur : Page α) (log : List (Nat × (α → α))) (lsn : Nat) : Prop :=
  lsn = cur.llsn ∨ log = []

/-- A page read from storage at the LLSN of the current image is the current image. -/
theorem LogInv.read (h : LogInv base log cur) {lsn k : Nat} (hlsn : Current cur log lsn)
    (fresh : lsn ≤ (replay base (log.take k)).llsn) :
    replay base (log.take k) = cur := by
  rcases Nat.lt_or_ge k log.length with hlt | hge
  · have hold := h.older k hlt
    rcases hlsn with rfl | hnil
    · omega
    · simp [hnil] at hlt
  · rw [List.take_of_length_le hge, h.replayed]

/-- The node is about to drop its copy: the directory does not list it any more. -/
def Node.Stale (nd : Node N α) : Prop :=
  (∃ u ∈ nd.unlocks, u.fromRelease = true ∧ u.served = true) ∨ .agreed ∈ nd.evicts

/-- The fetch has got the page. -/
def Fetch.hasPage (f : Fetch N) : Bool :=
  match f.stage with
  | .granted | .pushing _ => true
  | _ => false

variable {f : Fetch N}

theorem hasPage_of_stage {stage : FetchStage N} (h : f.stage = stage) :
    f.hasPage = Fetch.hasPage ⟨f.x, stage⟩ := by
  simp only [Fetch.hasPage, h]

/-- The copies of the page on a node, and those on their way to it. -/
structure CopyInv (a : AbsDirectory N) (cur : Page α) (n : NodeId N) (nd : Node N α) : Prop where
  fresh : ∀ page, nd.buffer = some page → page = cur ∨ nd.Stale
  kept : nd.lk.remoteMode ≠ .none → nd.evicts.any Evict.past = false → nd.buffer ≠ none
  fetched : ∀ f ∈ nd.fetches, f.hasPage = true → nd.buffer ≠ none
  arrived : 0 < nd.arrived + nd.lk.updateSuccess.toNat → nd.buffer ≠ none
  listed : nd.buffer ≠ none →
    nd.Stale ∨ n ∈ a.holders ∨ 0 < nd.arrived + nd.lk.updateSuccess.toNat
  pushes : ∀ page ∈ nd.pushes, page = cur

theorem NodeInv.not_stale (h : NodeInv a n nd) (hu : UnlockInv a n nd) (hn : n ∈ a.holders) :
    ¬ nd.Stale := by
  rintro (⟨u, hmem, hr, hs⟩ | hmem)
  · exact (hu.release u hmem hr).2 hs hn
  · exact h.left_of_past hmem rfl hn

variable {page : Page α}

theorem CopyInv.of_holder (h : CopyInv a cur n nd) (hnode : NodeInv a n nd) (hu : UnlockInv a n nd)
    (hn : n ∈ a.holders) (buf : nd.buffer = some page) : page = cur :=
  (h.fresh page buf).resolve_right (hnode.not_stale hu hn)

namespace CopyInv

theorem congr (h : CopyInv a cur n nd) (hb : nd'.buffer = nd.buffer)
    (hp : nd'.pushes = nd.pushes) (ha : nd'.arrived = nd.arrived)
    (hup : nd'.lk.updateSuccess = nd.lk.updateSuccess) (hstale : nd.Stale → nd'.Stale)
    (hmode : nd'.lk.remoteMode ≠ .none → nd.lk.remoteMode ≠ .none)
    (hpast : nd'.evicts.any Evict.past = false → nd.evicts.any Evict.past = false)
    (hf : nd'.fetches = nd.fetches) : CopyInv a cur n nd' where
  fresh page := by
    rw [hb]
    exact fun hpage => (h.fresh page hpage).imp_right hstale
  kept hm he := by
    rw [hb]
    exact h.kept (hmode hm) (hpast he)
  fetched := by
    rw [hb, hf]
    exact h.fetched
  arrived := by
    rw [hb, ha, hup]
    exact h.arrived
  listed := by
    rw [hb, ha, hup]
    exact fun hbuf => (h.listed hbuf).imp_left hstale
  pushes := by
    rw [hp]
    exact h.pushes

theorem of_empty (hb : nd.buffer = none) (hin : nd.pushes.length + nd.arrived +
      nd.lk.updateSuccess.toNat = 0)
    (hmode : nd.lk.remoteMode = .none ∨ nd.evicts.any Evict.past = true)
    (hf : ∀ f ∈ nd.fetches, f.hasPage = false) : CopyInv a cur n nd := by
  have hpushes : nd.pushes = [] := List.length_eq_zero_iff.1 (by omega)
  refine ⟨by simp [hb], fun hm he => ?_, fun f hmem hpage => ?_, fun hpos => by omega,
    fun hne => absurd hb hne, by simp [hpushes]⟩
  · rcases hmode with hmode | hmode
    · exact absurd hmode hm
    · simp [hmode] at he
  · simp [hf f hmem] at hpage

theorem frame (h : CopyInv a cur n nd) (hold : n ∈ a.holders → n ∈ b.holders) :
    CopyInv b cur n nd :=
  { h with listed := fun hb => (h.listed hb).imp_right (.imp_left hold) }

theorem filled (h : CopyInv a cur n nd) (hb : nd'.buffer = some cur)
    (hp : ∀ page ∈ nd'.pushes, page ∈ nd.pushes)
    (hlisted : n ∈ a.holders ∨ 0 < nd'.arrived + nd'.lk.updateSuccess.toNat) :
    CopyInv a cur n nd' := by
  have hne : nd'.buffer ≠ none := by simp [hb]
  refine ⟨fun page hpage => .inl ?_, fun _ _ => hne, fun _ _ _ => hne, fun _ => hne,
    fun _ => .inr hlisted, fun page hmem => h.pushes page (hp page hmem)⟩
  rw [hb] at hpage
  exact (Option.some.inj hpage).symm

theorem pushed (h : CopyInv a cur n nd) (hpage : page = cur) :
    CopyInv a cur n { nd with pushes := nd.pushes ++ [page] } := by
  refine { h with pushes := fun p hp => ?_ }
  rcases List.mem_append.1 hp with hp | hp
  · exact h.pushes p hp
  · rw [List.mem_singleton.1 hp]
    exact hpage

end CopyInv

/-- Where the next copy of the page on a node may come from. -/
structure SourceInv (a : AbsDirectory N) (cur : Page α) (log : List (Nat × (α → α)))
    (n : NodeId N) (nd : Node N α) : Prop where
  /-- A fetch reads storage at the LLSN of the current image. -/
  stored : ∀ f ∈ nd.fetches, ∀ lsn, f.stage = .answered (.storageFetch lsn) → Current cur log lsn
  /-- An eviction reports the LLSN of the current image. -/
  evicting : ∀ lsn, .asking lsn ∈ nd.evicts → n ∈ a.holders → lsn = cur.llsn
  /-- The node that is asked by `NotifyPushPage` is listed. -/
  notifying : ∀ f ∈ nd.fetches, ∀ m, f.stage = .notifying m → m ∈ a.holders

namespace SourceInv

theorem of_stage (h : SourceInv a cur log n nd) (hf : nd'.fetches = [f])
    (he : nd'.evicts = nd.evicts) (hstored : ∀ lsn, f.stage ≠ .answered (.storageFetch lsn))
    (hnot : ∀ m, f.stage ≠ .notifying m) : SourceInv a cur log n nd' where
  stored := by
    intro g hg lsn hst
    rw [hf, List.mem_singleton] at hg
    exact absurd (hg ▸ hst) (hstored lsn)
  evicting := by rw [he]; exact h.evicting
  notifying := by
    intro g hg m hst
    rw [hf, List.mem_singleton] at hg
    exact absurd (hg ▸ hst) (hnot m)

theorem of_evict (h : SourceInv a cur log n nd) {e : Evict} (hf : nd'.fetches = nd.fetches)
    (he : ∀ e' ∈ nd'.evicts, e' = e ∨ e' ∈ nd.evicts)
    (hnew : ∀ lsn, e = .asking lsn → n ∈ a.holders → lsn = cur.llsn) :
    SourceInv a cur log n nd' where
  stored := by rw [hf]; exact h.stored
  evicting := by
    intro lsn hmem hn
    rcases he _ hmem with heq | hold
    · exact hnew lsn heq.symm hn
    · exact h.evicting lsn hold hn
  notifying := by rw [hf]; exact h.notifying

end SourceInv

/-- All copies of the page, and all places it can be read from, are in order. -/
structure Coherent (s : State N α) : Prop where
  copy : ∀ n, CopyInv s.dir.view s.cur n (s.nodes n)
  source : ∀ n, SourceInv s.dir.view s.cur s.log n (s.nodes n)
  /-- If nobody holds the page, storage is asked for the current image. -/
  unheld : s.dir.view.holders = [] → Current s.cur s.log s.dir.view.lsn
  log : LogInv s.base s.log s.cur

theorem sent_rest (s : State N α) (n : NodeId N) (dest : Option (NodeId N)) :
    (s.sent n dest).cur = s.cur ∧ (s.sent n dest).log = s.log ∧ (s.sent n dest).base = s.base := by
  unfold State.sent
  split <;> exact ⟨rfl, rfl, rfl⟩

theorem Coherent.page_of_holder (h : Coherent s) (ht : TransferInv s) (hn : n ∈ s.dir.view.holders)
    (buf : (s.nodes n).buffer = some page) : page = s.cur :=
  (h.copy n).of_holder (ht.lock.node n) (ht.givenUp n) hn buf

theorem Coherent.buffer_of_used (h : Coherent s) (ht : TransferInv s)
    (hused : 0 < (s.nodes n).readers ∨ 0 < (s.nodes n).writers) :
    (s.nodes n).buffer = some s.cur := by
  cases (ht.lock.node n).phase with
  | fetching ha =>
    rcases hused with hused | hused
    · simp [ha.readers] at hused
    · simp [ha.writers] at hused
  | idle hi =>
    have hl : (s.nodes n).lk.lock ≠ 0 := by
      intro h0
      obtain ⟨hr, hw, -⟩ := hi.users.unused h0
      omega
    have hmode : (s.nodes n).lk.remoteMode ≠ .none := fun hm => hl (hi.users.lock_eq_zero hm)
    have hev := (ht.lock.node n).evicts_nil ((ht.lock.node n).not_evicting hl)
    obtain ⟨page, hpage⟩ := Option.ne_none_iff_exists'.1 ((h.copy n).kept hmode (by simp [hev]))
    rw [hpage, h.page_of_holder ht (ht.lock.holder_of_used hi.granting hl) hpage]

theorem NodeInv.served_of_stage (h : NodeInv a n nd) (mem : f ∈ nd.fetches)
    (hask : f.stage ≠ .asking) (hwait : f.stage ≠ .answered .waitLockRelease) :
    Asking nd f ∧ Granted a n f.x ∧ nd.giving = 0 := by
  obtain ⟨ha, hp⟩ := h.fetch_of_mem mem
  cases hp with
  | waiting _ _ _ hst =>
    rcases hst with ⟨hst, -⟩ | ⟨hst, -⟩
    · exact absurd hst hask
    · exact absurd hst hwait
  | served hg _ _ kept => exact ⟨ha, hg, kept⟩

theorem NodeInv.not_giving_of_hasPage (h : NodeInv a n nd) (mem : f ∈ nd.fetches)
    (hpage : f.hasPage = true) : nd.giving = 0 := by
  have hne : f.stage ≠ .asking ∧ f.stage ≠ .answered .waitLockRelease := by
    constructor <;> intro hst <;> rw [hasPage_of_stage hst] at hpage <;> cases hpage
  exact (h.served_of_stage mem hne.1 hne.2).2.2

theorem pushes_add_arrived (h : nd.inbound = 0) :
    nd.pushes.length + nd.arrived + nd.lk.updateSuccess.toNat = 0 := by
  rw [Node.inbound] at h
  omega

theorem CopyInv.drop_idle (hi : Idle a n nd) (hin : nd.inbound = 0) (hb : nd'.buffer = none)
    (hmode : nd'.lk.remoteMode = .none ∨ nd'.evicts.any Evict.past = true)
    (hup : nd'.lk.updateSuccess = nd.lk.updateSuccess)
    (hnd : nd' = { nd with
      lk := nd'.lk, buffer := nd'.buffer, unlocks := nd'.unlocks, evicts := nd'.evicts }) :
    CopyInv b cur n nd' := by
  have hsame : nd'.pushes = nd.pushes ∧ nd'.arrived = nd.arrived ∧ nd'.fetches = [] := by
    rw [hnd]
    exact ⟨rfl, rfl, hi.fetches⟩
  obtain ⟨hp, ha, hf⟩ := hsame
  refine .of_empty hb ?_ hmode (by simp [hf])
  rw [hp, ha, hup]
  exact pushes_add_arrived hin

/-- A node that has been told to go on has the page: it has been pushed, or the node has kept its
own. -/
theorem Coherent.buffer_of_success (h : Coherent s) (ht : TransferInv s) (mem : f ∈ (s.nodes n).fetches)
    (success : (s.nodes n).lk.successReturn = true)
    (update : (s.nodes n).lk.updateSuccess = (s.nodes n).lk.needWait) :
    (s.nodes n).buffer ≠ none := by
  obtain ⟨ha, -⟩ := (ht.lock.node n).fetch_of_mem mem
  cases hw : (s.nodes n).lk.needWait with
  | true => exact (h.copy n).arrived (by simp [update.trans hw])
  | false =>
    exact (h.copy n).kept (ht.newest n (.inr ⟨success, hw⟩))
      (by simp [(ht.lock.node n).evicts_nil_of_granting ha.granting])

variable {act : Action N α}

theorem Coherent.copy_dirStep (h : Coherent s) (ht : TransferInv s) (hs : DirStep s act s')
    (k : NodeId N) : CopyInv s'.dir.view s.cur k (s'.nodes k) := by
  have heffect := hs.effect ht.lock k
  generalize s'.nodes k = nd at heffect ⊢
  cases heffect with
  | message kept =>
    exact { (h.copy k).frame kept with }
  | @answered f stage msgs mem asking answer kept =>
    obtain ⟨ha, hp⟩ := (ht.lock.node k).fetch_of_mem mem
    have hfetches : (((s.nodes k).setStage f stage).receive k msgs).fetches = [⟨f.x, stage⟩] := by
      simp [Node.setStage, Node.receive, ha.fetches]
    have hstage : Fetch.hasPage (⟨f.x, stage⟩ : Fetch N) = true → (s.nodes k).buffer ≠ none := by
      intro hpage
      cases answer with
      | wait | storage | join => cases hpage
      | upgrade queue holder =>
        -- the only reader has kept its lock, and with it the page
        refine (h.copy k).kept (fun hmode => ?_) (by
          simp [(ht.lock.node k).evicts_nil_of_granting ha.granting])
        cases hp with
        | served _ hst => exact hst asking
        | waiting _ _ hholds =>
          rw [hmode] at hholds
          exact (hholds holder).queue_ne_nil queue
    refine { (h.copy k).frame kept with fetched := fun g hg hpage => ?_ }
    rw [hfetches, List.mem_singleton] at hg
    exact hstage (hg ▸ hpage)
  | @unlocked u msgs mem served =>
    have hc := h.copy k
    obtain ⟨-, -, hu⟩ := (ht.mutex k).of_unlock mem
    have hunserved : ¬ (∃ v ∈ (s.nodes k).unlocks, v.fromRelease = true ∧ v.served = true) := by
      simp [hu, served]
    have hstale : (s.nodes k).Stale → ({ s.nodes k with
        unlocks := { u with served := true } :: (s.nodes k).unlocks.erase u }.receive k
          msgs : Node N α).Stale := fun hst => .inr (hst.resolve_left hunserved)
    refine { hc with
      fresh := fun page hpage => (hc.fresh page hpage).imp_right hstale, listed := fun hb => ?_ }
    cases hr : u.fromRelease with
    | true => exact .inl (.inl ⟨_, List.mem_cons_self, rfl, rfl⟩)
    | false => exact absurd ((ht.givenUp k).dropped u mem hr served) hb
  | @evicted lsn mem left =>
    have hc := h.copy k
    have hstale : ({ s.nodes k with
        evicts := .agreed :: (s.nodes k).evicts.erase (.asking lsn) } : Node N α).Stale :=
      .inr List.mem_cons_self
    exact { hc with
      fresh := fun page _ => .inr hstale, kept := fun _ he => by simp [Evict.past] at he
      listed := fun _ => .inl hstale }
  | @refused lsn mem same =>
    rw [same]
    refine (h.copy k).congr rfl rfl rfl rfl (fun hst => ?_) id ?_ rfl
    · rcases hst with hst | hst
      · exact .inl hst
      · exact .inr (List.mem_cons_of_mem _ ((List.mem_erase_of_ne (by simp)).2 hst))
    · obtain ⟨heq, -⟩ := (ht.lock.node k).evicts_eq mem
      simp [heq, Evict.past]

section Step

variable [DecidableEq α]

theorem Coherent.copy_step (hN : N < EXCLUSIVE_LOCKED) (h : Coherent s) (ht : TransferInv s)
    (hs : Step s act s') (hact : act.changesPage = false) (k : NodeId N) :
    CopyInv s'.dir.view s.cur k (s'.nodes k) := by
  have hlock := ht.lock
  have hset : ∀ {n : NodeId N} {nd : Node N α}, CopyInv s.dir.view s.cur n nd →
      CopyInv s.dir.view s.cur k ((s.setNode n nd).nodes k) := fun hnd =>
    forall_setNode (P := CopyInv s.dir.view s.cur) h.copy hnd k
  -- a push by a listed node
  have hsent : ∀ {n : NodeId N} {dest : Option (NodeId N)} {nd : Node N α},
      n ∈ s.dir.view.holders → CopyInv s.dir.view s.cur n nd →
      CopyInv (s.sent n dest).dir.view s.cur k (((s.sent n dest).setNode n nd).nodes k) := by
    intro n dest nd hn hnd
    rw [sent_dir]
    refine forall_setNode (P := CopyInv s.dir.view s.cur) (forall_sent h.copy ?_) hnd k
    exact fun d page _ buf => (h.copy d).pushed (h.page_of_holder ht hn buf)
  have hidle : ∀ {n}, Idle s.dir.view n (s.nodes n) → (s.nodes n).inbound = 0 :=
    fun hi => ht.push.inbound_of_idle hi
  have hdir := hlock.dirStep_of_step hN hs
  cases hs with
  | lockLocalS | lockLocalX | releaseS | releaseX | releaseKeep | pendingKeep | lockSuccess =>
    exact hset { h.copy _ with }
  | @lockAskS n quiet | @lockAskX n quiet =>
    refine hset { h.copy n with fetched := fun f hf hpage => ?_ }
    rcases List.mem_cons.1 hf with rfl | hf
    · cases hpage
    · exact (h.copy n).fetched f hf hpage
  | dirLock | dirUnlock | dirEvict => exact h.copy_dirStep ht (hdir rfl) k
  | @notifyPush n m f page mem stage buf =>
    obtain ⟨ha, -⟩ := hlock.node n |>.fetch_of_mem mem
    have hpage := h.page_of_holder ht ((h.source n).notifying f mem m stage) buf
    have hn : CopyInv s.dir.view s.cur n
        { (s.nodes n).setStage f (.answered (.pushFrom m)) with
          pushes := (s.nodes n).pushes ++ [page] } := by
      refine { (h.copy n).pushed hpage with fetched := fun g hg hgp => ?_ }
      simp only [Node.setStage, ha.fetches, List.erase_cons_head, List.mem_singleton] at hg
      rw [hg] at hgp
      cases hgp
    exact hset hn
  | @readStorage n f j lsn mem stage le fresh buf =>
    obtain ⟨-, hg, -⟩ := (hlock.node n).served_of_stage mem (by simp [stage]) (by simp [stage])
    have hread := h.log.read ((h.source n).stored f mem lsn stage) fresh
    exact hset ((h.copy n).filled (congrArg some hread) (fun _ hp => hp) (.inl hg.holder))
  | @gotPush n m f mem stage free update =>
    obtain ⟨-, hg, -⟩ := (hlock.node n).served_of_stage mem (by simp [stage]) (by simp [stage])
    have hbuf := (h.copy n).arrived (by simp [update])
    obtain ⟨page, hpage⟩ := Option.ne_none_iff_exists'.1 hbuf
    have hcurrent := h.page_of_holder ht hg.holder hpage
    exact hset ((h.copy n).filled (hcurrent ▸ hpage) (fun _ hp => hp) (.inl hg.holder))
  | @gotLock n f mem stage free success update =>
    obtain ⟨-, hp⟩ := (hlock.node n).fetch_of_mem mem
    have hholder : n ∈ s.dir.view.holders := by
      cases hp with
      | waiting _ hs => simp [success] at hs
      | served hg => exact hg.holder
    obtain ⟨page, hpage⟩ :=
      Option.ne_none_iff_exists'.1 (h.buffer_of_success ht mem success update)
    have hcurrent := h.page_of_holder ht hholder hpage
    exact hset ((h.copy n).filled (hcurrent ▸ hpage) (fun _ hp => hp) (.inl hholder))
  | @takePushList n f mem stage =>
    have hbuf := (h.copy n).fetched f mem (by rw [hasPage_of_stage stage]; rfl)
    exact hset { h.copy n with fetched := fun _ _ _ => hbuf }
  | @pushNext n d f pushList page mem stage buf =>
    obtain ⟨-, hg, -⟩ := (hlock.node n).served_of_stage mem (by simp [stage]) (by simp [stage])
    rw [pushed_eq_sent buf]
    have hbuf := (h.copy n).fetched f mem (by rw [hasPage_of_stage stage]; rfl)
    exact hsent hg.holder { h.copy n with fetched := fun _ _ _ => hbuf }
  | @fetchDone n f mem stage buf =>
    have hbuf : (s.nodes n).buffer ≠ none := by
      intro hnone
      simp [hnone] at buf
    have hc := h.copy n
    exact hset { hc with kept := fun _ _ => hbuf, fetched := fun _ _ _ => hbuf }
  | write | writeUnlogged => cases hact
  | @releasePush n r mem =>
    have hg := (hlock.node n).phase.not_granting_of_release mem
    have hi := (hlock.node n).idle hg
    exact hsent (hlock.holder_of_used hg (hi.users.lock_ne_zero mem))
      { h.copy n with }
  | @releaseEnd n r b mem =>
    exact hset ((h.copy n).congr rfl rfl rfl (unlock_frame r b _).2.1 id
      (r.unlocked_unlock b (s.nodes n).lk).mode_ne id rfl)
  | @releaseUnlock n r b mem =>
    refine hset ((h.copy n).congr rfl rfl rfl (unlock_frame r b _).2.1 ?_
      (r.unlocked_unlock b (s.nodes n).lk).mode_ne id rfl)
    rintro (⟨u, hu, hst⟩ | hst)
    · exact .inl ⟨u, List.mem_cons_of_mem _ hu, hst⟩
    · exact .inr hst
  | @pending n p lk j mem _ _ _ case =>
    refine hset ((h.copy n).congr rfl rfl rfl (pendingCase_frame case).2.2.1 id ?_ id rfl)
    intro hmode
    cases case with
    | unused | upgrading => exact absurd rfl hmode
    | used | granting => exact hmode
  | @pendingGive n p mem gives dest =>
    have hgive := Node.giving_pos_of_handler mem gives
    have hpended := (hlock.node n).duties_pended (by rw [Node.duties]; omega)
    refine hsent hpended.1 (.of_empty rfl ?_ (.inl ((hlock.node n).giving_mode hgive)) ?_)
    · exact pushes_add_arrived (ht.push.inbound_of_giving hlock hgive)
    · intro f hf
      by_contra hpage
      have hnot := (hlock.node n).not_giving_of_hasPage hf (by simpa using hpage)
      omega
  | @unlockReturn n u mem served =>
    cases hr : u.fromRelease with
    | true =>
      have hi := (hlock.node n).idle ((ht.givenUp n).release u mem hr).1
      exact hset (.drop_idle hi (hidle hi) rfl
        (.inl ((ht.givenUp n).mode u mem)) rfl rfl)
    | false =>
      refine hset ((h.copy n).congr rfl rfl rfl rfl ?_ id id rfl)
      rintro (⟨v, hv, hvr, -⟩ | hst)
      · rw [((ht.mutex n).of_unlock mem).2.2, List.mem_singleton] at hv
        simp [hv, hr] at hvr
      · exact .inr hst
  | @pushArrive n page mem =>
    have hpage := (h.copy n).pushes page mem
    exact hset ((h.copy n).filled (congrArg some hpage) (fun _ hp => List.mem_of_mem_erase hp)
      (.inr (by simp only; omega)))
  | @pushNotify n pos =>
    have hbuf := (h.copy n).arrived (by omega)
    have hc := h.copy n
    exact hset { hc with
      arrived := fun _ => hbuf, listed := fun _ => .inr (.inr (by simp only [Bool.toNat_true]; omega)) }
  | @beginEvict n =>
    refine hset ((h.copy n).congr rfl rfl rfl rfl ?_ id ?_ rfl)
    · exact Or.imp_right (List.mem_cons_of_mem _)
    · simp [Evict.past]
  | @evictLost n mem | @evictNone n mem | @evictAsk n page mem | @endEvict n mem =>
    obtain ⟨heq, -⟩ := (hlock.node n).evicts_eq mem
    refine hset ((h.copy n).congr rfl rfl rfl rfl ?_ id ?_ rfl)
    · rintro (hst | hst)
      · exact .inl hst
      · simp [heq] at hst
    · simp [heq, Evict.past]
  | @evictReplace n mem =>
    have hi := (hlock.node n).idle_of_evict mem
    exact hset (.drop_idle hi (hidle hi) rfl (.inr (by simp [Evict.past])) rfl rfl)
  | @evictDone n mem =>
    obtain ⟨heq, -⟩ := (hlock.node n).evicts_eq mem
    have hc := h.copy n
    have hstale : (s.nodes n).Stale →
        ∃ u ∈ (s.nodes n).unlocks, u.fromRelease = true ∧ u.served = true := by
      rintro (hst | hst)
      · exact hst
      · simp [heq] at hst
    exact hset { hc with
      fresh := fun page hpage => (hc.fresh page hpage).imp_right fun hst => .inl (hstale hst)
      kept := fun hmode => absurd rfl hmode
      listed := fun hb => (hc.listed hb).imp_left fun hst => .inl (hstale hst) }

omit [DecidableEq α] in
theorem DirStep.gl_free (hs : DirStep s act s') : s.dir.gl.mutex.held = false := by
  cases hs <;> assumption

omit [DecidableEq α] in
theorem DirMutexInv.not_notifying (h : DirMutexInv s) (free : s.dir.gl.mutex.held = false)
    (mem : f ∈ (s.nodes n).fetches) (m : NodeId N) : f.stage ≠ .notifying m := by
  intro hst
  have hzero := h.notifying_of_free free
  have hle : (s.nodes n).notifying ≤ s.notifying :=
    Finset.single_le_sum (f := fun k => (s.nodes k).notifying) (fun _ _ => Nat.zero_le _)
      (Finset.mem_univ n)
  have hpos : 0 < (s.nodes n).notifying :=
    List.countP_pos_iff.2 ⟨f, mem, by rw [notifies_of_stage hst]; rfl⟩
  omega

omit [DecidableEq α] in
theorem Coherent.source_dirStep (h : Coherent s) (ht : TransferInv s) (hs : DirStep s act s')
    (k : NodeId N) : SourceInv s'.dir.view s.cur s.log k (s'.nodes k) := by
  have hsrc := h.source k
  have hnot : ∀ f ∈ (s.nodes k).fetches, ∀ m, f.stage = .notifying m → m ∈ s'.dir.view.holders :=
    fun f mem m hst => absurd hst (ht.dirMutex.not_notifying hs.gl_free mem m)
  -- an evicting node does not ask the directory
  have hevict : ∀ lsn, .asking lsn ∈ (s.nodes k).evicts → k ∈ s'.dir.view.holders →
      lsn = s.cur.llsn := by
    intro lsn mem hk
    rcases hs.granting_of_listed ht.lock hk with hold | hg
    · exact hsrc.evicting lsn mem hold
    · simp [((ht.lock.node k).idle_of_evict mem).granting] at hg
  have heffect := hs.effect ht.lock k
  generalize s'.nodes k = nd at heffect ⊢
  cases heffect with
  | message | unlocked => exact ⟨hsrc.stored, hevict, hnot⟩
  | @answered f stage msgs mem asking answer =>
    obtain ⟨ha, -⟩ := (ht.lock.node k).fetch_of_mem mem
    have hfetches : (((s.nodes k).setStage f stage).receive k msgs).fetches = [⟨f.x, stage⟩] := by
      simp [Node.setStage, Node.receive, ha.fetches]
    refine ⟨fun g hg lsn hst => ?_, hevict, fun g hg m hst => ?_⟩
    · rw [hfetches, List.mem_singleton] at hg
      rw [hg] at hst
      cases answer with
      | wait | join | upgrade => cases hst
      | storage unheld =>
        cases hst
        exact h.unheld unheld
    · rw [hfetches, List.mem_singleton] at hg
      rw [hg] at hst
      cases answer with
      | wait | storage | upgrade => cases hst
      | join holder =>
        cases hst
        exact holder
  | @evicted lsn mem | @refused lsn mem =>
    obtain ⟨heq, -⟩ := (ht.lock.node k).evicts_eq mem
    refine ⟨hsrc.stored, fun l hl => ?_, hnot⟩
    simp [heq] at hl

omit [DecidableEq α] in
/-- The last holder to leave has told the directory the LLSN of the current image. -/
theorem Coherent.unheld_dirStep (h : Coherent s) (hs : DirStep s act s')
    (hnil : s'.dir.view.holders = []) : Current s.cur s.log s'.dir.view.lsn := by
  cases hs with
  | @enqueue n f d _ _ _ _ view =>
    have hd : (s.dir.view.enqueue ⟨n, f.x⟩).1.holders = [] := view ▸ hnil
    show Current s.cur s.log d.view.lsn
    rw [view]
    exact h.unheld hd
  | @storage n f d _ _ _ _ _ view | @join n m f d _ _ _ _ _ _ _ _ view =>
    have hd : d.view.holders = [] := hnil
    simp [view] at hd
  | @upgrade n f d _ _ _ _ _ holders _ view =>
    have hd : d.view.holders = [] := hnil
    simp [view, holders] at hd
  | @leave n u d _ _ pended sound view =>
    obtain ⟨-, r, rs, hq, -⟩ := pended
    have hq' : d.view.queue = r :: rs := by
      rw [view]
      exact hq
    obtain ⟨m, hm, -⟩ := sound.wf.round hq'
    have hd : d.view.holders = [] := hnil
    simp [hd] at hm
  | @grant n first u d x others queue _ _ _ _ view =>
    have hd : d.view.holders = [] := hnil
    simp [view, AbsDirectory.grant] at hd
  | @evict n lsn d mem holder _ _ view =>
    rw [view]
    exact .inl ((h.source n).evicting lsn mem holder)
  | @refuse n lsn d _ _ view =>
    have hd : s.dir.view.holders = [] := view ▸ hnil
    rw [view]
    exact h.unheld hd

theorem Coherent.source_step (hN : N < EXCLUSIVE_LOCKED) (h : Coherent s) (ht : TransferInv s)
    (hs : Step s act s') (hact : act.changesPage = false) (k : NodeId N) :
    SourceInv s'.dir.view s.cur s.log k (s'.nodes k) := by
  have hlock := ht.lock
  have hset : ∀ {n : NodeId N} {nd : Node N α}, SourceInv s.dir.view s.cur s.log n nd →
      SourceInv s.dir.view s.cur s.log k ((s.setNode n nd).nodes k) := fun hnd =>
    forall_setNode (P := SourceInv s.dir.view s.cur s.log) h.source hnd k
  have hsent : ∀ {n : NodeId N} {dest : Option (NodeId N)} {nd : Node N α},
      SourceInv s.dir.view s.cur s.log n nd → SourceInv (s.sent n dest).dir.view s.cur s.log k
        (((s.sent n dest).setNode n nd).nodes k) := by
    intro n dest nd hnd
    rw [sent_dir]
    exact forall_setNode (P := SourceInv s.dir.view s.cur s.log)
      (forall_sent h.source fun d _ _ _ => { h.source d with }) hnd k
  -- the only fetch of a node gets to another stage
  have hstage : ∀ {n : NodeId N} {f : Fetch N} (stage : FetchStage N), f ∈ (s.nodes n).fetches →
      ((s.nodes n).setStage f stage).fetches = [⟨f.x, stage⟩] := by
    intro n f stage mem
    obtain ⟨ha, -⟩ := (hlock.node n).fetch_of_mem mem
    simp [Node.setStage, ha.fetches]
  have hdir := hlock.dirStep_of_step hN hs
  cases hs with
  | lockLocalS | lockLocalX | releaseS | releaseX | releaseKeep | releaseEnd | releaseUnlock
  | pending | pendingKeep | unlockReturn | pushArrive | pushNotify | lockSuccess =>
    exact hset { h.source _ with }
  | @lockAskS n quiet =>
    have hi := (hlock.node n).idle quiet.not_granting
    exact hset ((h.source n).of_stage (f := ⟨false, .asking⟩) (by simp [hi.fetches]) rfl
      (by simp) (by simp))
  | @lockAskX n quiet =>
    have hi := (hlock.node n).idle quiet.not_granting
    exact hset ((h.source n).of_stage (f := ⟨true, .asking⟩) (by simp [hi.fetches]) rfl
      (by simp) (by simp))
  | dirLock | dirUnlock | dirEvict => exact h.source_dirStep ht (hdir rfl) k
  | notifyPush mem | readStorage mem | gotPush mem | gotLock mem | takePushList mem =>
    exact hset ((h.source _).of_stage (hstage _ mem) rfl (by simp) (by simp))
  | pushNext mem _ buf =>
    rw [pushed_eq_sent buf]
    exact hsent ((h.source _).of_stage (hstage _ mem) rfl (by simp) (by simp))
  | @fetchDone n f mem =>
    obtain ⟨ha, -⟩ := (hlock.node n).fetch_of_mem mem
    refine hset ⟨fun g hg => ?_, (h.source n).evicting, fun g hg => ?_⟩ <;>
      simp [ha.fetches] at hg
  | write | writeUnlogged => cases hact
  | releasePush | pendingGive => exact hsent { h.source _ with }
  | beginEvict =>
    exact hset ((h.source _).of_evict (e := .chosen) rfl (fun _ => List.mem_cons.1) (by simp))
  | evictLost | evictNone | evictDone =>
    refine hset ((h.source _).of_evict (e := .ending) rfl (fun e he => ?_) (by simp))
    exact (List.mem_cons.1 he).imp_right List.mem_of_mem_erase
  | @evictAsk n page mem free mode buf =>
    refine hset ((h.source n).of_evict (e := .asking page.llsn) rfl (fun e he => ?_) ?_)
    · exact (List.mem_cons.1 he).imp_right List.mem_of_mem_erase
    · intro lsn heq hn
      rw [← Evict.asking.inj heq, h.page_of_holder ht hn buf]
  | evictReplace =>
    refine hset ((h.source _).of_evict (e := .replaced) rfl (fun e he => ?_) (by simp))
    exact (List.mem_cons.1 he).imp_right List.mem_of_mem_erase
  | endEvict =>
    refine hset ((h.source _).of_evict (e := .ending) rfl (fun e he => ?_) (by simp))
    exact .inr (List.mem_of_mem_erase he)

theorem Step.rest (hs : Step s act s') (hact : act.changesPage = false) :
    s'.cur = s.cur ∧ s'.log = s.log ∧ s'.base = s.base := by
  cases hs with
  | write | writeUnlogged => cases hact
  | releasePush | pendingGive => exact sent_rest s _ _
  | _ => exact ⟨rfl, rfl, rfl⟩

theorem Coherent.unheld_step (hN : N < EXCLUSIVE_LOCKED) (h : Coherent s) (ht : TransferInv s)
    (hs : Step s act s') : s'.dir.view.holders = [] → Current s.cur s.log s'.dir.view.lsn := by
  intro hnil
  have hdir := ht.lock.dirStep_of_step hN hs
  cases hs with
  | dirLock | dirUnlock | dirEvict => exact h.unheld_dirStep (hdir rfl) hnil
  | releasePush | pendingGive =>
    have hdir := sent_dir s
    simp only [State.setNode, hdir] at hnil ⊢
    exact h.unheld hnil
  | _ => exact h.unheld hnil

omit [DecidableEq α] in
/-- A logged write: no other node has a copy that it will go on using, and none is on its way. -/
theorem Coherent.write (h : Coherent s) (ht : TransferInv s) {f : α → α} {llsn : Nat}
    (writer : 0 < (s.nodes n).writers) (buf : (s.nodes n).buffer = some page)
    (lt : page.llsn < llsn) : Coherent
      { s.setNode n { s.nodes n with buffer := some ⟨llsn, f page.data⟩ } with
      log := s.log ++ [(llsn, f)], cur := ⟨llsn, f page.data⟩ } := by
  obtain ⟨hi, -, -, -, hev, hholders, -⟩ := ht.lock.of_writer writer
  obtain rfl : page = s.cur := by
    have hused := h.buffer_of_used ht (.inr writer)
    rw [buf] at hused
    exact Option.some.inj hused
  have hin := ht.push.inbound_of_writer ht.lock ht.asked writer
  have hpushes : ∀ k, (s.nodes k).pushes = [] := fun k =>
    List.length_eq_zero_iff.1 (by have := pushes_add_arrived (hin k); omega)
  have hother : ∀ k, k ≠ n → k ∉ s.dir.view.holders := fun k hk => by simp [hholders, hk]
  refine ⟨fun k => ?_, fun k => ?_, fun hnil => ?_, h.log.append f lt⟩
  · show CopyInv s.dir.view _ k (update s.nodes n _ k)
    by_cases hk : k = n
    · subst hk
      rw [update_self]
      have hne : (some ⟨llsn, f s.cur.data⟩ : Option (Page α)) ≠ none := nofun
      exact ⟨fun p hp => .inl (Option.some.inj hp).symm, fun _ _ => hne, fun _ _ _ => hne,
        fun _ => hne, fun _ => .inr (.inl (by simp [hholders])), by simp [hpushes k]⟩
    · rw [update_of_ne hk]
      have hc := h.copy k
      have hnone : ¬ 0 < (s.nodes k).arrived + (s.nodes k).lk.updateSuccess.toNat := by
        have := pushes_add_arrived (hin k)
        omega
      refine { hc with fresh := fun p hp => .inr ?_, pushes := by simp [hpushes k] }
      rcases hc.listed (by simp [hp]) with hst | hmem | hpos
      · exact hst
      · exact absurd hmem (hother k hk)
      · exact absurd hpos hnone
  · show SourceInv s.dir.view _ _ k (update s.nodes n _ k)
    by_cases hk : k = n
    · subst hk
      exact ⟨by simp [hi.fetches], by simp [hev], by simp [hi.fetches]⟩
    · rw [update_of_ne hk]
      refine ⟨fun g mem lsn hst => ?_, fun _ _ hmem => absurd hmem (hother k hk),
        (h.source k).notifying⟩
      obtain ⟨-, hg, -⟩ :=
        (ht.lock.node k).served_of_stage mem (by simp [hst]) (by simp [hst])
      exact absurd hg.holder (hother k hk)
  · have hnil' : s.dir.view.holders = [] := hnil
    simp [hholders] at hnil'

/-- Every change of the page is logged. -/
def Action.Logged : Action N α → Prop
  | .writeUnlogged _ _ => False
  | _ => True

instance : (act : Action N α) → Decidable act.Logged
  | .writeUnlogged .. => .isFalse id
  | .lock .. | .dirLock .. | .notifyPush .. | .readStorage .. | .gotPush .. | .gotLock ..
  | .takePushList .. | .pushNext .. | .fetchDone .. | .write .. | .release ..
  | .releasePush .. | .releaseFinish .. | .pending .. | .pendingFinish .. | .dirUnlock ..
  | .unlockReturn .. | .pushArrive .. | .pushNotify .. | .lockSuccess .. | .beginEvict ..
  | .evictLost .. | .evictCheck .. | .dirEvict .. | .evictReplace .. | .evictDone ..
  | .endEvict .. => .isTrue trivial

theorem Coherent.step (hN : N < EXCLUSIVE_LOCKED) (h : Coherent s) (ht : TransferInv s)
    (hlogged : act.Logged) (hs : Step s act s') : Coherent s' := by
  cases hact : act.changesPage with
  | false =>
    obtain ⟨hcur, hlog, hbase⟩ := hs.rest hact
    refine ⟨fun k => ?_, fun k => ?_, ?_, ?_⟩
    · rw [hcur]
      exact h.copy_step hN ht hs hact k
    · rw [hcur, hlog]
      exact h.source_step hN ht hs hact k
    · rw [hcur, hlog]
      exact h.unheld_step hN ht hs
    · rw [hcur, hlog, hbase]
      exact h.log
  | true =>
    cases hs with
    | write writer buf lt => exact h.write ht writer buf lt
    | writeUnlogged => exact hlogged.elim
    | _ => cases hact

end Step

theorem coherent_init (base : Page α) : Coherent (State.init base : State N α) where
  copy _ := .of_empty rfl rfl (.inl rfl) nofun
  source _ := ⟨nofun, nofun, nofun⟩
  unheld _ := .inr rfl
  log := ⟨rfl, nofun⟩

variable [DecidableEq α]

/-- Node 0 reads the page, upgrades its lock and writes; node 1 asks for the page, and node 0 hands it
on. -/
def sharedReadRun (llsn : Nat) : List (Action 2 Nat) :=
  [.lock 0 false, .dirLock 0 ⟨false, .asking⟩,
    .readStorage 0 ⟨false, .answered (.storageFetch 0)⟩ 0, .fetchDone 0 ⟨false, .pushing []⟩,
    .release 0 false, .releasePush 0 ⟨false, 0, none⟩, .releaseFinish 0 ⟨false, 0, some false⟩,
    .lock 0 true, .dirLock 0 ⟨true, .asking⟩, .fetchDone 0 ⟨true, .pushing []⟩,
    .write 0 (· + 1) llsn, .release 0 true, .releasePush 0 ⟨true, 0, none⟩,
    .releaseFinish 0 ⟨true, 0, some false⟩, .lock 1 false, .dirLock 1 ⟨false, .asking⟩,
    .pending 0 ⟨true, some 1⟩, .pendingFinish 0 ⟨2, some 1⟩, .dirUnlock 0 ⟨false, false⟩,
    .pushArrive 1 ⟨llsn, 1⟩, .pushNotify 1, .lockSuccess 1 ⟨false, false, []⟩,
    .gotLock 1 ⟨false, .answered .waitLockRelease⟩, .takePushList 1 ⟨false, .granted⟩,
    .fetchDone 1 ⟨false, .pushing []⟩]

end LazyRelease
