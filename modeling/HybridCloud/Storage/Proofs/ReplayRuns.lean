import HybridCloud.Storage.Proofs.DispatchProofs

/-!
# Whole runs of replay

A run reads the streams in any order, each of them in pieces; the constructor reads all of them to
the end. `RunInv` adds to the invariant of replay that the records which were read are the consumed
parts of the streams.
-/

namespace Storage

open Outcome LogReplay Function

/-- The files hold exactly the records of the chains, and records that change no heap page. -/
structure WalOf (chains : PageKey → List LogRecord) (files : List WalFile) : Prop where
  nodes : (files.map (·.node)).Nodup
  producer : ∀ f ∈ files, ∀ log ∈ f.records, log.logNodeId = f.node
  increasing : ∀ f ∈ files, f.records.Pairwise (·.lsn < ·.lsn)
  noNewPage : ∀ f ∈ files, ∀ log ∈ f.records, ∀ table, log.body ≠ .newPage table
  chain : ∀ key log, log ∈ chains key ↔
    log.pageForLog = some key ∧ ∃ f ∈ files, log ∈ f.records

/-- The page that the record belongs to is stored on `d` and is already past the record. -/
def LogRecord.CoveredBy (log : LogRecord) (d : Disk) : Prop :=
  ∃ key p, log.pageForLog = some key ∧ d.page key = some p ∧ log.lsn ≤ p.hdr.llsn

/-- As `WalOf`, but the files may also hold records that the pages of `d₀` are past. -/
structure WalWith (d₀ : Disk) (chains : PageKey → List LogRecord) (files : List WalFile) :
    Prop where
  nodes : (files.map (·.node)).Nodup
  producer : ∀ f ∈ files, ∀ log ∈ f.records, log.logNodeId = f.node
  increasing : ∀ f ∈ files, f.records.Pairwise (·.lsn < ·.lsn)
  noNewPage : ∀ f ∈ files, ∀ log ∈ f.records, ∀ table, log.body ≠ .newPage table
  chain : ∀ key, ∀ log ∈ chains key, log.pageForLog = some key ∧ ∃ f ∈ files, log ∈ f.records
  others : ∀ f ∈ files, ∀ log ∈ f.records, ∀ key, log.pageForLog = some key →
    log ∈ chains key ∨ log.CoveredBy d₀

theorem WalOf.walWith {chains : PageKey → List LogRecord} {files : List WalFile}
    (h : WalOf chains files) (d₀ : Disk) : WalWith d₀ chains files where
  nodes := h.nodes
  producer := h.producer
  increasing := h.increasing
  noNewPage := h.noNewPage
  chain key log hlog := (h.chain key log).1 hlog
  others f hf log hlog key hkey := .inl ((h.chain key log).2 ⟨hkey, f, hf, hlog⟩)

/-- The records that have been read. -/
def LogReplay.wasRead (s : LogReplay) (log : LogRecord) : Prop :=
  ∃ node, log ∈ (s.streams node).consumed

/-- The invariant of a replay that was started on the disk `d₁`. -/
structure RunInv (d₀ d₁ : Disk) (chains : PageKey → List LogRecord) (files : List WalFile)
    (s : LogReplay) : Prop where
  replay : ReplayInv d₀ d₁ chains s.wasRead s
  node : ∀ n, (s.streams n).node = n
  file : ∀ f ∈ files, (s.streams f.node).consumed ++ (s.streams f.node).rest = f.records
  noFile : ∀ n, n ∉ files.map (·.node) → (s.streams n).consumed = [] ∧ (s.streams n).rest = []
  durable : ∀ n, ∃ i ≤ (s.streams n).rest.length,
    (s.streams n).durableEnd = (s.streams n).readOffset + walBytes ((s.streams n).rest.take i)

section Bytes

theorem walBytes_take_le (rs : List LogRecord) (i : Nat) : walBytes (rs.take i) ≤ walBytes rs := by
  conv_rhs => rw [← List.take_append_drop i rs, walBytes_append]
  omega

/-- Records that take no more bytes than a prefix of the same list are a part of it. -/
theorem length_le_of_walBytes_le {c rs : List LogRecord} {i : Nat} (hc : c <+: rs)
    (hle : walBytes c ≤ walBytes (rs.take i)) : c.length ≤ i := by
  by_contra hlt
  have hsub : rs.take i <+: c :=
    List.prefix_of_prefix_length_le (List.take_prefix i rs) hc (by simp; omega)
  obtain ⟨t, rfl⟩ := hsub
  have ht : walBytes t = 0 := by
    rw [walBytes_append] at hle
    omega
  rw [walBytes_eq_zero.1 ht] at hlt
  simp at hlt

end Bytes

variable {key : PageKey}

section Read

variable {d₀ d₁ : Disk} {chains : PageKey → List LogRecord} {files : List WalFile}
  {seen : LogRecord → Prop} {s : LogReplay}

variable {log : LogRecord}

theorem dispatch_metadata (hkey : log.pageForLog = none)
    (hbody : ∀ table, log.body ≠ .newPage table) : s.dispatch applySingleLog log = .next s := by
  simp only [dispatch, hkey, pure_def]

theorem readFileHdr_of_page {d : Disk} {p : Page} (h : d.page key = some p) :
    ∃ fileHdr, d.readFileHdr key.1 = .next fileHdr := by
  unfold Disk.page at h
  unfold Disk.readFileHdr
  cases hf : d key.1 with
  | none => simp [hf] at h
  | some f => exact ⟨_, rfl⟩

/-- The page of a record that `d₀` is past only moves on, so the record is skipped. -/
theorem dispatch_covered (h : ReplayInv d₀ d₁ chains seen s) (hcovered : log.CoveredBy d₀) :
    s.dispatch applySingleLog log = .next s := by
  obtain ⟨key, p₀, hkey, hp₀, hle⟩ := hcovered
  obtain ⟨done, todo, hk⟩ := h.keys key
  obtain ⟨fileHdr, hf⟩ := readFileHdr_of_page hp₀
  obtain ⟨p, hp, hpos⟩ := hk.page fileHdr p₀ hf hp₀
  have hversion : p.hdr.llsn = versionAfter LogRecord.lsn p₀.hdr.llsn done := hpos.version_eq
  obtain ⟨q, hdone, -⟩ := hpos
  have hlinked : Linked LogRecord.lsn LogRecord.prevLsn p₀.hdr.llsn done :=
    (RedoModel.linked_of_redoAll hdone).1
  have hpast : log.lsn ≤ p.hdr.llsn := by
    rw [hversion]
    exact hle.trans hlinked.le_versionAfter
  simp only [dispatch, hkey, Disk.readPage_eq_next.2 hp, next_bind, if_pos hpast, pure_def]

theorem ChainsApply.not_covered (hc : ChainsApply d₀ chains) (hlog : log ∈ chains key) :
    ¬ log.CoveredBy d₀ := by
  rintro ⟨key', p, hkey', hp, hle⟩
  obtain rfl : key = key' := Option.some.inj ((hc.owns key log hlog).symm.trans hkey')
  obtain ⟨fileHdr, p₀, p₁, -, hp₀, hall⟩ := hc.applies key (List.ne_nil_of_mem hlog)
  obtain rfl : p₀ = p := Option.some.inj (hp₀.symm.trans hp)
  have hlinked : Linked LogRecord.lsn LogRecord.prevLsn p₀.hdr.llsn (chains key) :=
    (RedoModel.linked_of_redoAll hall).1
  have := (hlinked.lsn_bounds hlog).1
  omega

/-- The loop of `ReadStream` over new records: some of them are consumed, in order, and the first
one is if it fits. -/
theorem readRecords_next (hc : ChainsApply d₀ chains) (node size : Nat) {rest : List LogRecord}
    (h : ReplayInv d₀ d₁ chains seen s)
    (hnode : ∀ log ∈ rest, log.logNodeId = node)
    (hkind : ∀ log ∈ rest, (∃ key, log ∈ chains key) ∨ log.CoveredBy d₀ ∨
      log.pageForLog = none ∧ ∀ table, log.body ≠ .newPage table)
    (hnew : ∀ log ∈ rest, ¬ seen log) (hlsn : rest.Pairwise (·.lsn < ·.lsn)) :
    ∃ s' c, readRecords applySingleLog node rest size s = .next (s', c) ∧
      c <+: rest ∧ walBytes c ≤ size ∧
      (∀ log t, rest = log :: t → log.logTotLen ≤ size → c ≠ []) ∧
      ReplayInv d₀ d₁ chains (fun r => seen r ∨ r ∈ c) s' ∧ s'.streams = s.streams := by
  induction rest generalizing s seen size with
  | nil =>
    refine ⟨s, [], rfl, List.nil_prefix, Nat.zero_le _, by simp, ?_, rfl⟩
    exact h.congr_seen fun _ _ _ => by simp
  | cons log rest ih =>
    by_cases hsize : size < log.logTotLen
    · refine ⟨s, [], ?_, List.nil_prefix, Nat.zero_le _, ?_, ?_, rfl⟩
      · simp only [readRecords, if_pos hsize, pure_def]
      · rintro _ _ ⟨rfl, rfl⟩ hle
        omega
      · exact h.congr_seen fun _ _ _ => by simp
    · obtain ⟨s₁, hs₁, hinv₁, hstreams₁⟩ : ∃ s₁, s.dispatch applySingleLog log = .next s₁ ∧
          ReplayInv d₀ d₁ chains (fun r => seen r ∨ r = log) s₁ ∧ s₁.streams = s.streams := by
        rcases hkind log List.mem_cons_self with ⟨key, hkey⟩ | hcovered | ⟨hnone, hbody⟩
        · exact dispatch_next hc h hkey (hnew log List.mem_cons_self)
        · refine ⟨s, dispatch_covered h hcovered, h.congr_seen fun key r hr => ?_, rfl⟩
          have hne : r ≠ log := by
            rintro rfl
            exact hc.not_covered hr hcovered
          simp [hne]
        · refine ⟨s, dispatch_metadata hnone hbody, h.congr_seen fun key r hr => ?_, rfl⟩
          have hne : r ≠ log := by
            rintro rfl
            rw [hc.owns key r hr] at hnone
            cases hnone
          simp [hne]
      obtain ⟨hhead, htail⟩ := List.pairwise_cons.1 hlsn
      obtain ⟨s', c, hread, hprefix, hbytes, -, hinv, hstreams⟩ := ih (size - log.logTotLen) hinv₁
        (fun r hr => hnode r (List.mem_cons_of_mem _ hr))
        (fun r hr => hkind r (List.mem_cons_of_mem _ hr))
        (fun r hr => by
          rintro (hs | rfl)
          · exact hnew r (List.mem_cons_of_mem _ hr) hs
          · exact absurd (hhead r hr) (lt_irrefl _))
        htail
      refine ⟨s', log :: c, ?_, (List.prefix_cons_inj log).2 hprefix, ?_, by simp, ?_,
        hstreams.trans hstreams₁⟩
      · simp only [readRecords, if_neg hsize, cassert_bind (hnode log List.mem_cons_self), hs₁,
          next_bind, hread, pure_def]
      · rw [walBytes_cons]
        omega
      · exact hinv.congr_seen fun _ r _ => by simp [or_assoc]

theorem RunInv.setStream (h : RunInv d₀ d₁ chains files s) {n : Nat} {st : Stream}
    {c : List LogRecord} {s₁ : LogReplay}
    (hreplay : ReplayInv d₀ d₁ chains (fun r => s.wasRead r ∨ r ∈ c) s₁)
    (hnode : st.node = (s.streams n).node) (hconsumed : st.consumed = (s.streams n).consumed ++ c)
    (hrest : (s.streams n).rest = c ++ st.rest)
    (hdurable : ∃ i ≤ st.rest.length, st.durableEnd = st.readOffset + walBytes (st.rest.take i)) :
    RunInv d₀ d₁ chains files { s₁ with streams := update s.streams n st } := by
  have hcases : ∀ P : Nat → Stream → Prop, P n st → (∀ m, P m (s.streams m)) →
      ∀ m, P m (update s.streams n st m) := fun P hn hother =>
    (forall_update_iff s.streams P).2 ⟨hn, fun m _ => hother m⟩
  have hsame := hcases (fun m x => x.consumed ++ x.rest =
      (s.streams m).consumed ++ (s.streams m).rest)
    (by rw [hconsumed, hrest, List.append_assoc]) fun _ => rfl
  refine ⟨(hreplay.setStreams _).congr_seen fun _ r _ => ⟨?_, ?_⟩,
    hcases (fun m x => x.node = m) (hnode.trans (h.node n)) h.node,
    fun f hf => (hsame f.node).trans (h.file f hf), fun m hm => ?_,
    hcases (fun _ x => ∃ i ≤ x.rest.length, x.durableEnd = x.readOffset + walBytes (x.rest.take i))
      hdurable h.durable⟩
  · rintro (⟨m, hm⟩ | hr)
    · refine ⟨m, hcases (fun k x => r ∈ (s.streams k).consumed → r ∈ x.consumed) ?_ (fun _ => id) m
        hm⟩
      rw [hconsumed]
      exact List.mem_append_left _
    · exact ⟨n, by simp [hconsumed, hr]⟩
  · rintro ⟨m, hm⟩
    refine hcases (fun k x => r ∈ x.consumed → s.wasRead r ∨ r ∈ c) (fun hr => ?_)
      (fun k hk => .inl ⟨k, hk⟩) m hm
    rw [hconsumed] at hr
    exact (List.mem_append.1 hr).imp_left fun hr => ⟨n, hr⟩
  · obtain ⟨hnone, hend⟩ := h.noFile m hm
    exact List.append_eq_nil_iff.1 ((hsame m).trans (by rw [hnone, hend]; rfl))

/-- What one `ReadStream` does: it consumes some records of the stream, none only at the durable
end. -/
theorem readStream_next (hc : ChainsApply d₀ chains) (hw : WalWith d₀ chains files)
    (h : RunInv d₀ d₁ chains files s) (n : Nat) :
    ∃ s' c progress, s.readStream applySingleLog n = .next (s', progress) ∧
      RunInv d₀ d₁ chains files s' ∧ c <+: (s.streams n).rest ∧
      s'.streams = update s.streams n { s.streams n with
        consumed := (s.streams n).consumed ++ c
        rest := (s.streams n).rest.drop c.length } ∧
      (progress = true ↔ c ≠ []) ∧
      (progress = false → (s.streams n).durableEnd ≤ (s.streams n).readOffset) := by
  obtain ⟨i, hi, hend⟩ := h.durable n
  by_cases hsize : min ((s.streams n).durableEnd - (s.streams n).readOffset)
      LOG_REPLAY_BUFFER_SIZE = 0
  · refine ⟨s, [], false, ?_, h, List.nil_prefix, by simp, by simp, fun _ => ?_⟩
    · simp only [readStream, if_pos hsize, pure_def]
    · have : 0 < LOG_REPLAY_BUFFER_SIZE := by decide
      omega
  · -- the part of the file that is read
    have hfile : n ∈ files.map (·.node) := by
      by_contra hno
      obtain ⟨-, hrest⟩ := h.noFile n hno
      rw [hend, hrest] at hsize
      simp at hsize
    obtain ⟨f, hf, rfl⟩ := List.mem_map.1 hfile
    have hrecords := h.file f hf
    have hmem : ∀ r ∈ (s.streams f.node).rest, r ∈ f.records := fun r hr =>
      hrecords ▸ List.mem_append_right _ hr
    have hsorted : (s.streams f.node).rest.Pairwise (·.lsn < ·.lsn) := by
      have := hw.increasing f hf
      rw [← hrecords] at this
      exact (List.pairwise_append.1 this).2.1
    have hnew : ∀ r ∈ (s.streams f.node).rest, ¬ s.wasRead r := by
      rintro r hr ⟨m, hm⟩
      -- a record names its producer, so it was read from this stream
      have hm' : m = f.node := by
        by_cases hmfile : m ∈ files.map (·.node)
        · obtain ⟨g, hg, rfl⟩ := List.mem_map.1 hmfile
          have hrg : r ∈ g.records := h.file g hg ▸ List.mem_append_left _ hm
          rw [← hw.producer g hg r hrg, hw.producer f hf r (hmem r hr)]
        · rw [(h.noFile m hmfile).1] at hm
          cases hm
      subst hm'
      have := hw.increasing f hf
      rw [← hrecords] at this
      exact absurd ((List.pairwise_append.1 this).2.2 r hm r hr) (lt_irrefl _)
    obtain ⟨s₁, c, hread, hprefix, hbytes, hfirst, hinv, hstreams⟩ :=
      readRecords_next hc (s.streams f.node).node
        (min ((s.streams f.node).durableEnd - (s.streams f.node).readOffset)
          LOG_REPLAY_BUFFER_SIZE) h.replay
        (fun r hr => by rw [h.node, hw.producer f hf r (hmem r hr)])
        (fun r hr => by
          cases hkey : r.pageForLog with
          | none => exact .inr (.inr ⟨rfl, hw.noNewPage f hf r (hmem r hr)⟩)
          | some key =>
            rcases hw.others f hf r (hmem r hr) key hkey with hchain | hcovered
            · exact .inl ⟨key, hchain⟩
            · exact .inr (.inl hcovered))
        hnew hsorted
    have hprefix' := hprefix
    obtain ⟨left, hleft⟩ := hprefix'
    -- the first record is within the durable part and fits into the buffer
    have hne : c ≠ [] := by
      cases hcase : (s.streams f.node).rest with
      | nil => simp [hend, hcase] at hsize
      | cons r t =>
        refine hfirst r t hcase (le_min ?_ r.fits)
        cases i with
        | zero => simp [hend] at hsize
        | succ i =>
          rw [hend, hcase, List.take_succ_cons, walBytes_cons]
          omega
    have hci : c.length ≤ i := by
      refine length_le_of_walBytes_le hprefix (hbytes.trans ((min_le_left _ _).trans ?_))
      omega
    have hdrop : (s.streams f.node).rest.drop c.length = left := by
      rw [← hleft, List.drop_left]
    have hpread : min ((s.streams f.node).durableEnd - (s.streams f.node).readOffset)
        LOG_REPLAY_BUFFER_SIZE ≤ walBytes (s.streams f.node).rest := by
      have := walBytes_take_le (s.streams f.node).rest i
      omega
    let st : Stream := { s.streams f.node with
      consumed := (s.streams f.node).consumed ++ c
      rest := (s.streams f.node).rest.drop c.length }
    have hstep : s.readStream applySingleLog f.node = .next
        ({ s₁ with streams := update s.streams f.node st }, true) := by
      simp only [readStream, if_neg hsize, cassert_bind hpread, hread, next_bind,
        cassert_bind hne, pure_def, hstreams, st]
    refine ⟨_, c, true, hstep, h.setStream hinv rfl rfl ?_ ⟨i - c.length, ?_, ?_⟩, hprefix, rfl,
      by simp [hne], by simp⟩
    · rw [show st.rest = left from hdrop, hleft]
    · simp [st]
      omega
    · have htake : (s.streams f.node).rest.take i = c ++ left.take (i - c.length) := by
        rw [← hleft, List.take_append, List.take_of_length_le hci]
      simp only [st, hdrop, Stream.readOffset, walBytes_append]
      rw [hend, htake, walBytes_append, Stream.readOffset]
      omega

end Read

variable {n : Nat}

section Start

variable {d₀ d : Disk} {chains : PageKey → List LogRecord} {files : List WalFile}
  {e : WalFile → Nat}

theorem Interrupted.refl (d₀ : Disk) (chains : PageKey → List LogRecord) :
    Interrupted d₀ chains d₀ where
  fileHdr _ := rfl
  missing _ h := h
  pages key := ⟨[], chains key, rfl, fun _ p₀ _ hp => ⟨p₀, hp, RedoModel.Position.start p₀ _⟩⟩

theorem foldl_registerStream_of_not_mem (hn : n ∉ files.map (·.node)) (s : LogReplay) :
    (files.foldl (fun s f => s.registerStream f (e f)) s).streams n = s.streams n := by
  induction files generalizing s with
  | nil => rfl
  | cons f files ih =>
    simp only [List.map_cons, List.mem_cons, not_or] at hn
    rw [List.foldl_cons, ih hn.2]
    exact Function.update_of_ne hn.1 _ _

theorem registerAll_streams_of_not_mem (hn : n ∉ files.map (·.node)) :
    (registerAll d files e).streams n = Stream.empty n :=
  foldl_registerStream_of_not_mem hn _

theorem registerAll_streams (hnodes : (files.map (·.node)).Nodup) {f : WalFile} (hf : f ∈ files) :
    (registerAll d files e).streams f.node =
      { node := f.node, consumed := [], rest := f.records, durableEnd := e f } := by
  suffices ∀ s : LogReplay,
      (files.foldl (fun s f => s.registerStream f (e f)) s).streams f.node =
        { node := f.node, consumed := [], rest := f.records, durableEnd := e f } from this _
  induction files with
  | nil => cases hf
  | cons g files ih =>
    intro s
    rw [List.map_cons, List.nodup_cons] at hnodes
    rw [List.foldl_cons]
    rcases List.mem_cons.1 hf with rfl | hf
    · rw [foldl_registerStream_of_not_mem hnodes.1]
      exact Function.update_self _ _ _
    · exact ih hnodes.2 hf _

theorem registerAll_rest (d : Disk) (files : List WalFile) (e : WalFile → Nat) :
    (registerAll d files e).disk = d ∧ (registerAll d files e).waiting = [] ∧
      (registerAll d files e).pendingRecords = 0 ∧ (registerAll d files e).writes = [] := by
  suffices ∀ s : LogReplay,
      (files.foldl (fun s f => s.registerStream f (e f)) s).disk = s.disk ∧
      (files.foldl (fun s f => s.registerStream f (e f)) s).waiting = s.waiting ∧
      (files.foldl (fun s f => s.registerStream f (e f)) s).pendingRecords = s.pendingRecords ∧
      (files.foldl (fun s f => s.registerStream f (e f)) s).writes = s.writes from this _
  induction files with
  | nil => intro s; exact ⟨rfl, rfl, rfl, rfl⟩
  | cons f files ih => intro s; exact ih _

/-- Replay can be started on every disk that a replay may have left behind. -/
theorem runInv_registerAll (hw : WalWith d₀ chains files) (hd : Interrupted d₀ chains d)
    (he : ∀ f ∈ files, ∃ i ≤ f.records.length, e f = walBytes (f.records.take i)) :
    RunInv d₀ d chains files (registerAll d files e) := by
  obtain ⟨hdisk, hwaiting, hpending, hwrites⟩ := registerAll_rest d files e
  have hunread : ∀ n, ((registerAll d files e).streams n).consumed = [] := by
    intro n
    by_cases hn : n ∈ files.map (·.node)
    · obtain ⟨f, hf, rfl⟩ := List.mem_map.1 hn
      rw [registerAll_streams hw.nodes hf]
    · rw [registerAll_streams_of_not_mem hn]
      rfl
  refine ⟨⟨?_, ?_, ?_, ?_, ?_, ?_, ?_, ?_⟩, ?_, ?_, ?_, ?_⟩
  · rw [hdisk]
    exact hd.fileHdr
  · rw [hdisk]
    exact hd.missing
  · rw [hpending, hwaiting]
    rfl
  · rw [hwaiting]
    exact List.nodup_nil
  · intro log hlog
    rw [hwaiting] at hlog
    cases hlog
  · intro key
    obtain ⟨done, todo, hsplit, hpage⟩ := hd.pages key
    refine ⟨done, todo, hsplit, by rw [hdisk]; exact hpage, ?_, ?_⟩
    · intro log hlog
      rw [hwaiting] at hlog
      cases hlog
    · rintro log - ⟨n, hn⟩
      rw [hunread n] at hn
      cases hn
  · rw [hdisk, hwrites]
    rfl
  · intro us hus
    rw [hwrites] at hus
    rw [List.prefix_nil.1 hus]
    exact hd
  · intro n
    by_cases hn : n ∈ files.map (·.node)
    · obtain ⟨f, hf, rfl⟩ := List.mem_map.1 hn
      rw [registerAll_streams hw.nodes hf]
    · rw [registerAll_streams_of_not_mem hn]
      rfl
  · intro f hf
    rw [registerAll_streams hw.nodes hf]
    rfl
  · intro n hn
    rw [registerAll_streams_of_not_mem hn]
    exact ⟨rfl, rfl⟩
  · intro n
    by_cases hn : n ∈ files.map (·.node)
    · obtain ⟨f, hf, rfl⟩ := List.mem_map.1 hn
      rw [registerAll_streams hw.nodes hf]
      obtain ⟨i, hi, hend⟩ := he f hf
      exact ⟨i, hi, by simp [Stream.readOffset, hend]⟩
    · rw [registerAll_streams_of_not_mem hn]
      exact ⟨0, le_rfl, rfl⟩

end Start

section Runs

variable {d₀ d₁ d : Disk} {chains : PageKey → List LogRecord} {files : List WalFile}
  {s s' : LogReplay}

theorem RunInv.publishDurable (h : RunInv d₀ d₁ chains files s) {durableEnd : Nat}
    (hend : ∃ i ≤ (s.streams n).rest.length,
      durableEnd = (s.streams n).readOffset + walBytes ((s.streams n).rest.take i)) :
    RunInv d₀ d₁ chains files (s.publishDurable n durableEnd) := by
  have hseen : ReplayInv d₀ d₁ chains (fun r => s.wasRead r ∨ r ∈ []) s :=
    h.replay.congr_seen fun _ _ _ => by simp
  exact h.setStream hseen rfl (List.append_nil _).symm rfl hend

theorem RunInv.step (hc : ChainsApply d₀ chains) (hw : WalWith d₀ chains files)
    (h : RunInv d₀ d₁ chains files s) {a : Action} (ok : Allowed s a) :
    ∃ s', s.step a = .next s' ∧ RunInv d₀ d₁ chains files s' := by
  cases a with
  | publishDurable n durableEnd => exact ⟨_, rfl, h.publishDurable ok.2⟩
  | readStream n =>
    obtain ⟨s', c, progress, hread, hinv, -⟩ := readStream_next hc hw h n
    exact ⟨s', by simp only [LogReplay.step, stepWith, hread, next_bind, pure_def], hinv⟩

theorem RunInv.of_run (hc : ChainsApply d₀ chains) (hw : WalWith d₀ chains files)
    {e : WalFile → Nat} (hd : Interrupted d₀ chains d)
    (he : ∀ f ∈ files, ∃ i ≤ f.records.length, e f = walBytes (f.records.take i))
    (run : Run LogReplay.step Allowed (registerAll d files e) s) :
    RunInv d₀ d chains files s := by
  refine run.invariant (runInv_registerAll hw hd he) ?_
  intro s a s' h ok taken
  obtain ⟨s'', hs'', hinv⟩ := h.step hc hw ok
  obtain rfl : s' = s'' := next.inj (taken.symm.trans hs'')
  exact hinv

/-- On the disk `d` the page `key` is what redo of its chain, in order, makes of the page on `d₀`. -/
def PageReplayed (d₀ : Disk) (chains : PageKey → List LogRecord) (d : Disk) (key : PageKey) :
    Prop :=
  (d₀.page key = none → d.page key = none) ∧
  ∀ fileHdr p₀, d₀.readFileHdr key.1 = .next fileHdr → d₀.page key = some p₀ →
    ∃ p₁, (heapRedo fileHdr).redoAll (chains key) p₀ = .next p₁ ∧ d.page key = some p₁

/-- When every stream is read to its end nothing is parked and every chain has been applied. -/
theorem RunInv.finished (hc : ChainsApply d₀ chains) (hw : WalWith d₀ chains files)
    (h : RunInv d₀ d₁ chains files s) (hread : ∀ n, (s.streams n).rest = []) :
    s.pendingRecords = 0 ∧ s.waiting = [] ∧ ∀ key, PageReplayed d₀ chains s.disk key := by
  have hseen : ∀ key, ∀ log ∈ chains key, s.wasRead log := by
    intro key log hlog
    obtain ⟨-, f, hf, hmem⟩ := hw.chain key log hlog
    rw [← h.file f hf, hread, List.append_nil] at hmem
    exact ⟨f.node, hmem⟩
  have hdone : ∀ key, KeyInv d₀ chains s.wasRead s key (chains key) [] := by
    intro key
    obtain ⟨done, todo, hk⟩ := h.replay.keys key
    cases todo with
    | nil =>
      rw [show chains key = done by simpa using hk.split]
      exact hk
    | cons head tail =>
      -- the next record was read, so it would have been applied
      have hhead : head ∈ chains key := by simp [hk.split]
      have hnodup := hc.nodup key
      rw [hk.split, List.nodup_append] at hnodup
      obtain ⟨-, htodo, hdisjoint⟩ := hnodup
      rcases hk.seen head hhead (hseen key head hhead) with hin | hin
      · exact absurd rfl (hdisjoint head hin head List.mem_cons_self)
      · have := hk.parked head hin (hw.chain key head hhead).1
        exact absurd this (List.nodup_cons.1 htodo).1
  have hnone : s.waiting = [] := by
    refine List.eq_nil_iff_forall_not_mem.2 fun log hlog => ?_
    obtain ⟨key, hmem, -⟩ := h.replay.known log hlog
    have := (hdone key).parked log hlog (hw.chain key log hmem).1
    cases this
  refine ⟨by rw [h.replay.pending, hnone]; rfl, hnone, fun key => ⟨h.replay.missing key, ?_⟩⟩
  intro fileHdr p₀ hf hp
  obtain ⟨p, hp, hpos⟩ := (hdone key).page fileHdr p₀ hf hp
  exact ⟨p, hpos.finished, hp⟩

end Runs

section TwoStreams

/-! Two nodes change one page one after the other: node 0 locks the tuple, node 1 updates it. -/

/-- Node 0 locks the row. -/
def lockedByNode0 : LogRecord where
  lsn := 1
  prevLsn := 0
  logNodeId := 0
  body := .lock "t" { pageNo := 1, slotNo := 0 } EXCLUSIVE_LOCKED 7 0 0
  fits := by decide

/-- Node 1 updates it. -/
def updatedByNode1 : LogRecord where
  lsn := 2
  prevLsn := 1
  logNodeId := 1
  body := .update "t" { pageNo := 1, slotNo := 0 }
    { key := 3, item := .init, value := [5] }
  fits := by decide

/-- Each node has logged one record. -/
def twoStreams : List WalFile :=
  [{ node := 0, records := [lockedByNode0] }, { node := 1, records := [updatedByNode1] }]

/-- The chain of the page. -/
def twoStreamsChain (key : PageKey) : List LogRecord :=
  if key = ("t", 1) then [lockedByNode0, updatedByNode1] else []

/-- The page before them. -/
def twoStreamsDisk : Disk := fun table =>
  if table = "t" then
    some
      { fileHdr := { recordSize := 73, numPages := 2, numRecordsPerPage := 1, bitmapSize := 1 }
        pages := fun n =>
          if n = 1 then
            some
              { hdr := { nextFreePageNo := 0, numRecords := 1, llsn := 0, preLLSN := 0 }
                bitmap := fun i => i == 0
                slots := fun _ => { key := 3, item := .init, value := [4] } }
          else none }
  else none

theorem twoStreams_wal : WalOf twoStreamsChain twoStreams := by
  refine ⟨by decide, by decide +kernel, by decide +kernel, ?_, ?_⟩
  · simp [twoStreams, lockedByNode0, updatedByNode1]
  · intro key log
    have hfiles : (∃ f ∈ twoStreams, log ∈ f.records) ↔
        log = lockedByNode0 ∨ log = updatedByNode1 := by simp [twoStreams]
    rw [hfiles]
    constructor
    · intro hlog
      by_cases hkey : key = ("t", 1)
      · subst hkey
        rcases (show log = lockedByNode0 ∨ log = updatedByNode1 by
          simpa [twoStreamsChain] using hlog) with rfl | rfl
        · exact ⟨rfl, .inl rfl⟩
        · exact ⟨rfl, .inr rfl⟩
      · simp [twoStreamsChain, hkey] at hlog
    · rintro ⟨hkey, rfl | rfl⟩
      all_goals
        obtain rfl : ("t", 1) = key := Option.some.inj hkey
        simp [twoStreamsChain]

theorem twoStreams_apply : ChainsApply twoStreamsDisk twoStreamsChain := by
  constructor
  · intro key log hlog
    exact ((twoStreams_wal.chain key log).1 hlog).1
  · intro key hne
    have hkey : key = ("t", 1) := by
      by_contra hkey
      simp [twoStreamsChain, hkey] at hne
    subst hkey
    exact ⟨_, _, _, rfl, rfl, rfl⟩

/-- Node 1's stream is read first, so that its record is parked. -/
def laterStreamFirst : List Action :=
  [.publishDurable 1 (walBytes [updatedByNode1]), .readStream 1,
    .publishDurable 0 (walBytes [lockedByNode0]), .readStream 0]

theorem laterStreamFirst_run :
    ∃ s, Run LogReplay.step Allowed (registerAll twoStreamsDisk twoStreams fun _ => 0) s ∧
      (s.streams 0).rest = [] ∧ (s.streams 1).rest = [] ∧ s.writes.length = 4 := by
  obtain ⟨s, run, hs⟩ := Run.of_reaches LogReplay.step Allowed laterStreamFirst
    (registerAll twoStreamsDisk twoStreams fun _ => 0)
    (fun s => decide ((s.streams 0).rest = [] ∧ (s.streams 1).rest = [] ∧ s.writes.length = 4))
    (by decide +kernel)
  exact ⟨s, run, of_decide_eq_true hs⟩

end TwoStreams

section Restart

variable {d₀ d₁ d : Disk} {chains : PageKey → List LogRecord} {files : List WalFile}
  {s s' : LogReplay}

/-- One round of the constructor's loop: every stream keeps its durable end, none grows, one gets
shorter if there was progress, and otherwise all stand at their durable ends. -/
theorem readStreams_next (hc : ChainsApply d₀ chains) (hw : WalWith d₀ chains files)
    (h : RunInv d₀ d₁ chains files s) (nodes : List Nat) :
    ∃ s' progress, readStreams nodes s = .next (s', progress) ∧ RunInv d₀ d₁ chains files s' ∧
      (∀ n, (s'.streams n).durableEnd = (s.streams n).durableEnd) ∧
      (∀ n, walBytes (s'.streams n).rest ≤ walBytes (s.streams n).rest) ∧
      (progress = true → ∃ n ∈ nodes, walBytes (s'.streams n).rest < walBytes (s.streams n).rest) ∧
      (progress = false → s'.streams = s.streams ∧
        ∀ n ∈ nodes, (s.streams n).durableEnd ≤ (s.streams n).readOffset) := by
  induction nodes generalizing s with
  | nil => exact ⟨s, false, rfl, h, fun _ => rfl, fun _ => le_rfl, by simp, by simp⟩
  | cons n nodes ih =>
    obtain ⟨s₁, c, p₁, hread, hinv₁, ⟨t, ht⟩, hstreams, hprogress, hquiet⟩ :=
      readStream_next hc hw h n
    obtain ⟨s₂, p₂, hrest, hinv₂, hend₂, hle₂, hprogress₂, hquiet₂⟩ := ih hinv₁
    have hend₁ : ∀ m, (s₁.streams m).durableEnd = (s.streams m).durableEnd := by
      intro m
      by_cases hm : m = n
      · subst hm
        simp [hstreams]
      · simp [hstreams, Function.update_of_ne hm]
    have hdrop : (s₁.streams n).rest = t := by simp [hstreams, ← ht]
    have hle₁ : ∀ m, walBytes (s₁.streams m).rest ≤ walBytes (s.streams m).rest := by
      intro m
      by_cases hm : m = n
      · subst hm
        rw [hdrop, ← ht, walBytes_append]
        omega
      · simp [hstreams, Function.update_of_ne hm]
    refine ⟨s₂, p₁ || p₂, ?_, hinv₂, fun m => (hend₂ m).trans (hend₁ m),
      fun m => (hle₂ m).trans (hle₁ m), ?_, ?_⟩
    · simp only [readStreams, hread, next_bind, hrest, pure_def]
    · intro hor
      rcases Bool.or_eq_true_iff.1 hor with hp | hp
      · refine ⟨n, List.mem_cons_self, lt_of_le_of_lt (hle₂ n) ?_⟩
        have hpos : walBytes c ≠ 0 := fun hzero => hprogress.1 hp (walBytes_eq_zero.1 hzero)
        rw [hdrop, ← ht, walBytes_append]
        omega
      · obtain ⟨m, hm, hlt⟩ := hprogress₂ hp
        exact ⟨m, List.mem_cons_of_mem _ hm, lt_of_lt_of_le hlt (hle₁ m)⟩
    · intro hor
      obtain ⟨hp₁, hp₂⟩ := Bool.or_eq_false_iff.1 hor
      have hnil : c = [] := by
        by_contra hne
        rw [hprogress.2 hne] at hp₁
        cases hp₁
      have hsame : s₁.streams = s.streams := by simp [hstreams, hnil]
      obtain ⟨hsame₂, hall⟩ := hquiet₂ hp₂
      refine ⟨hsame₂.trans hsame, ?_⟩
      intro m hm
      rcases List.mem_cons.1 hm with rfl | hm
      · exact hquiet hp₁
      · exact hsame ▸ hall m hm

/-- How many bytes of the streams are still to be read. -/
def LogReplay.unread (s : LogReplay) (nodes : List Nat) : Nat :=
  (nodes.map fun n => walBytes (s.streams n).rest).sum

theorem readUntilQuiet_next (hc : ChainsApply d₀ chains) (hw : WalWith d₀ chains files)
    (nodes : List Nat) (fuel : Nat) (h : RunInv d₀ d₁ chains files s)
    (hfuel : s.unread nodes < fuel) :
    ∃ s', readUntilQuiet nodes fuel s = .next s' ∧ RunInv d₀ d₁ chains files s' ∧
      (∀ n, (s'.streams n).durableEnd = (s.streams n).durableEnd) ∧
      ∀ n ∈ nodes, (s'.streams n).durableEnd ≤ (s'.streams n).readOffset := by
  induction fuel generalizing s with
  | zero => omega
  | succ fuel ih =>
    obtain ⟨s₁, progress, hread, hinv, hend, hle, hprogress, hquiet⟩ :=
      readStreams_next hc hw h nodes
    simp only [readUntilQuiet, hread, next_bind]
    cases progress with
    | false =>
      obtain ⟨hsame, hall⟩ := hquiet rfl
      exact ⟨s₁, by simp, hinv, hend, hsame ▸ hall⟩
    | true =>
      have hless : s₁.unread nodes < s.unread nodes := by
        obtain ⟨n, hn, hlt⟩ := hprogress rfl
        exact List.sum_lt_sum _ _ (fun m _ => hle m) ⟨n, hn, hlt⟩
      obtain ⟨s', hs', hinv', hend', hall⟩ := ih hinv (by omega)
      exact ⟨s', by simpa using hs', hinv', fun n => (hend' n).trans (hend n), hall⟩

/-- The constructor succeeds on every disk that a replay may have left behind, and finishes the
chains. -/
theorem construct_next (hw : WalWith d₀ chains files) (hc : ChainsApply d₀ chains)
    (hd : Interrupted d₀ chains d) :
    ∃ s, construct d files = .next s ∧ ∀ key, PageReplayed d₀ chains s.disk key := by
  have hstart : RunInv d₀ d chains files
      (registerAll d files fun f => walBytes f.records) :=
    runInv_registerAll hw hd fun f _ => ⟨f.records.length, le_rfl, by rw [List.take_length]⟩
  have hunread : (registerAll d files fun f => walBytes f.records).unread (files.map (·.node)) =
      walBytes (files.flatMap (·.records)) := by
    have hmap : (files.map (·.node)).map (fun n =>
        walBytes ((registerAll d files fun f => walBytes f.records).streams n).rest) =
          files.map fun f => walBytes f.records := by
      rw [List.map_map]
      refine List.map_congr_left fun f hf => ?_
      simp [registerAll_streams hw.nodes hf]
    rw [LogReplay.unread, hmap]
    clear hmap hstart hw
    induction files with
    | nil => rfl
    | cons f files ih => simp [ih]
  obtain ⟨s, hs, hinv, hend, hquiet⟩ := readUntilQuiet_next hc hw (files.map (·.node))
    (walBytes (files.flatMap (·.records)) + 1) hstart (by omega)
  have hread : ∀ n, (s.streams n).rest = [] := by
    intro n
    by_cases hn : n ∈ files.map (·.node)
    · have hle := hquiet n hn
      obtain ⟨f, hf, rfl⟩ := List.mem_map.1 hn
      have hfull : (s.streams f.node).durableEnd = walBytes f.records := by
        rw [hend, registerAll_streams hw.nodes hf]
      rw [hfull, ← hinv.file f hf, walBytes_append, Stream.readOffset] at hle
      exact walBytes_eq_zero.1 (by omega)
    · exact (hinv.noFile n hn).2
  obtain ⟨hpending, -, hpages⟩ := hinv.finished hc hw hread
  refine ⟨s, ?_, hpages⟩
  rw [construct, cassert_bind hw.producer]
  simp only [hs, next_bind, cassert_bind hpending, pure_def]

/-- The disks that any number of crashes inside replays leave behind: each replay starts over on the
disk that the one before it left, with some of each file durable, and is cut off after some of its
writes. -/
inductive Crashed (files : List WalFile) (d₀ : Disk) : Disk → Prop where
  | never : Crashed files d₀ d₀
  | again {d : Disk} {e : WalFile → Nat} {s : LogReplay} {ws : List (PageKey × PageWrite)}
      (before : Crashed files d₀ d)
      (boundary : ∀ f ∈ files, ∃ i ≤ f.records.length, e f = walBytes (f.records.take i))
      (run : Run LogReplay.step Allowed (registerAll d files e) s)
      (cut : ws <+: s.writes) : Crashed files d₀ (d.replay ws)

theorem Crashed.interrupted (hw : WalWith d₀ chains files) (hc : ChainsApply d₀ chains)
    (h : Crashed files d₀ d) : Interrupted d₀ chains d := by
  induction h with
  | never => exact .refl d₀ chains
  | again before boundary run cut ih => exact (RunInv.of_run hc hw ih boundary run).replay.crash _ cut

theorem PageReplayed.unique {d' : Disk} (h : PageReplayed d₀ chains d key)
    (h' : PageReplayed d₀ chains d' key) : d.page key = d'.page key := by
  cases hp : d₀.page key with
  | none => rw [h.1 hp, h'.1 hp]
  | some p₀ =>
    obtain ⟨fileHdr, hf⟩ := readFileHdr_of_page hp
    obtain ⟨p₁, hall, hpage⟩ := h.2 fileHdr p₀ hf hp
    obtain ⟨p₂, hall', hpage'⟩ := h'.2 fileHdr p₀ hf hp
    rw [hpage, hpage', next.inj (hall.symm.trans hall')]

/-- Restart is idempotent: after any number of crashes, each of them between two writes of a replay
that itself ran on what the crash before left, the constructor runs to its end and every page is the
page that one uninterrupted replay makes. -/
theorem restart_idempotent (hw : WalOf chains files) (hc : ChainsApply d₀ chains)
    (h : Crashed files d₀ d) :
    ∃ s s₀, construct d files = .next s ∧ construct d₀ files = .next s₀ ∧
      ∀ key, s.disk.page key = s₀.disk.page key ∧ PageReplayed d₀ chains s₀.disk key := by
  obtain ⟨s, hs, hpages⟩ := construct_next (hw.walWith d₀) hc (h.interrupted (hw.walWith d₀) hc)
  obtain ⟨s₀, hs₀, hpages₀⟩ := construct_next (hw.walWith d₀) hc (.refl d₀ chains)
  exact ⟨s, s₀, hs, hs₀, fun key => ⟨(hpages key).unique (hpages₀ key), hpages₀ key⟩⟩

/-- The replay of the two streams is cut off after the tuple write of the last record. -/
theorem restart_idempotent_twoStreams :
    ∃ ws, ws.length = 3 ∧ Crashed twoStreams twoStreamsDisk (twoStreamsDisk.replay ws) ∧
      ∃ s s₀, construct (twoStreamsDisk.replay ws) twoStreams = .next s ∧
        construct twoStreamsDisk twoStreams = .next s₀ ∧
        s.disk.page ("t", 1) = s₀.disk.page ("t", 1) := by
  obtain ⟨s, run, -, -, hlen⟩ := laterStreamFirst_run
  have hcrash : Crashed twoStreams twoStreamsDisk (twoStreamsDisk.replay (s.writes.take 3)) :=
    .again .never (fun f _ => ⟨0, Nat.zero_le _, rfl⟩) run (List.take_prefix 3 _)
  obtain ⟨s', s₀, hs', hs₀, hsame⟩ :=
    restart_idempotent twoStreams_wal twoStreams_apply hcrash
  exact ⟨s.writes.take 3, by simp [hlen], hcrash, s', s₀, hs', hs₀, (hsame _).1⟩

end Restart

end Storage
