import HybridCloud.BufferPool.Proofs.OwnerLocks
import HybridCloud.BufferPool.Proofs.PoolProofs

/-!
# The frames of a page's owner

A frame that `tryVictim` has chosen belongs to one thread until the thread has given it to its page
or let it go. In 2PC mode a page leaves its frame in no other way (`FrameInv`).
-/

namespace BufferPool

open Outcome Storage Counting

attribute [local simp] OwnerNode.setStage Stage.flags

namespace OwnerNode

variable {tab : Dtx.Table} {me n : Nat} {s s' : OwnerNode} {i j : Nat} {t x : Thread}

/-- How many threads are concerned with the frame, as `g` says. -/
def count (g : Stage → Option FrameId) (s : OwnerNode) (f : FrameId) : Nat :=
  s.threads.countP fun t => g t.stage = some f

/-- Frames, page table and threads agree. -/
structure FrameInv (n : Nat) (s : OwnerNode) : Prop where
  pool : s.pool.Inv n (s.count Stage.reserves)
  flagged : ∀ f, s.count Stage.flags f = (s.pool.replacer.isEvicting f).toNat
  single : ∀ f, s.count Stage.takes f + (s.pool.replacer.isEvicting f).toNat ≤ 1
  listed : ∀ f, f ∈ s.pool.replacer → s.count Stage.takes f = 0
  brings : ∀ (i : Nat) (t : Thread), s.threads[i]? = some t → t.stage.brings = true →
    s.pool.pageTable t.page = none
  victim : ∀ (i : Nat) (t : Thread) (f : FrameId) (v : PageId), s.threads[i]? = some t →
    t.stage.victim = some (f, v) → s.pool.pageTable v = some f
  frame : ∀ (i : Nat) (t : Thread) (f : FrameId), s.threads[i]? = some t →
    t.stage.frame = some f → s.pool.pageTable t.page = some f

theorem frameInv_init {image : Page} {stored : PageId → Nat} {currentLLSN : Nat} :
    (init n image stored currentLLSN).FrameInv n := by
  refine ⟨Pool.inv_init n, fun _ => rfl, fun _ => Nat.zero_le _, nofun, ?_, ?_, ?_⟩ <;>
    intro i t <;> intros <;> simp [init] at *

section Count

variable {t' : Thread} {g : Stage → Option FrameId} {f : FrameId}

theorem count_pos (hi : s.threads[i]? = some t) (hg : g t.stage = some f) : 0 < s.count g f :=
  List.countP_pos_iff.2 ⟨t, List.mem_of_getElem? hi, by simpa using hg⟩

variable (hi : s.threads[i]? = some t) (threads : s'.threads = s.threads.set i t')
include hi threads

theorem count_set (f : FrameId) : s'.count g f + (decide (g t.stage = some f)).toNat =
    s.count g f + (decide (g t'.stage = some f)).toNat := by
  unfold count
  rw [threads]
  exact countP_set_add (fun t : Thread => decide (g t.stage = some f)) hi t'

theorem count_eq (hg : g t'.stage = g t.stage) : s'.count g = s.count g := by
  funext f
  have hcount := count_set (g := g) hi threads f
  rw [hg] at hcount
  exact Nat.add_right_cancel hcount

theorem count_gain (hold : g t.stage = none) (hnew : g t'.stage = some f) :
    s'.count g = Pool.addOne (s.count g) (some f) := by
  funext h
  have hcount := count_set (g := g) hi threads h
  rw [hold, hnew] at hcount
  by_cases hf : f = h <;> simpa [Pool.addOne, hf] using hcount

theorem count_lose (hold : g t.stage = some f) (hnew : g t'.stage = none) :
    s.count g = Pool.addOne (s'.count g) (some f) := by
  funext h
  have hcount := count_set (g := g) hi threads h
  rw [hold, hnew] at hcount
  by_cases hf : f = h <;> simpa [Pool.addOne, hf] using hcount.symm

theorem count_le (hg : ∀ f, g t'.stage = some f → g t.stage = some f) (f : FrameId) :
    s'.count g f ≤ s.count g f := by
  have hcount := count_set (g := g) hi threads f
  have hle : (decide (g t'.stage = some f)).toNat ≤ (decide (g t.stage = some f)).toNat := by
    by_cases hf : g t'.stage = some f
    · simp [hf, hg f hf]
    · simp [hf]
  omega

end Count

section Frame

variable {t' : Thread} (h : s.FrameInv n)
include h

section Stays

variable (hi : s.threads[i]? = some t) (threads : s'.threads = s.threads.set i t')
  (brings : t'.stage.brings = true → s.pool.pageTable t'.page = none)
  (victim : ∀ f v, t'.stage.victim = some (f, v) → s.pool.pageTable v = some f)
  (frame : ∀ f, t'.stage.frame = some f → s.pool.pageTable t'.page = some f)
include hi threads brings victim frame

/-- A thread goes on and no page moves: the marks in the LRU lists follow what the thread has
chosen, and it takes only a frame that it has marked. -/
theorem FrameInv.keep (table : s'.pool.pageTable = s.pool.pageTable) {c : FrameId → Nat}
    (reserves : s'.count Stage.reserves = c) (pool : s'.pool.Inv n c)
    (flags : ∀ f, (s'.pool.replacer.isEvicting f).toNat + (decide (t.stage.flags = some f)).toNat =
      (s.pool.replacer.isEvicting f).toNat + (decide (t'.stage.flags = some f)).toNat)
    (takes : ∀ f, (decide (t'.stage.takes = some f)).toNat + (s'.pool.replacer.isEvicting f).toNat ≤
        (decide (t.stage.takes = some f)).toNat + (s.pool.replacer.isEvicting f).toNat ∨
      f ∈ s.pool.replacer ∧ t'.stage.takes = none)
    (listed : ∀ f, f ∈ s'.pool.replacer → s.count Stage.takes f = 0 ∧
      (t'.stage.takes = some f → t.stage.takes = some f)) : s'.FrameInv n := by
  refine ⟨reserves ▸ pool, fun f => ?_, fun f => ?_, fun f hf => ?_, fun j x hj => ?_,
    fun j x f v hj => ?_,
    fun j x f hj => ?_⟩
  · have hcount := count_set (g := Stage.flags) hi threads f
    have hflagged := h.flagged f
    have := flags f
    omega
  · have hcount := count_set (g := Stage.takes) hi threads f
    rcases takes f with hle | ⟨hf, hnone⟩
    · have hsingle := h.single f
      omega
    · have hle := Bool.toNat_le (s'.pool.replacer.isEvicting f)
      simp only [hnone, h.listed f hf, reduceCtorEq, decide_false, Bool.toNat_false] at hcount
      omega
  · have hcount := count_set (g := Stage.takes) hi threads f
    obtain ⟨hzero, htakes⟩ := listed f hf
    by_cases hnew : t'.stage.takes = some f
    · simp only [hnew, htakes hnew, decide_true] at hcount
      omega
    · simp only [hnew, decide_false, Bool.toNat_false] at hcount
      omega
  all_goals
    rw [threads] at hj
    rw [table]
    rcases getElem?_set_cases hj with ⟨-, rfl⟩ | ⟨-, hx⟩
  · exact brings
  · exact h.brings j x hx
  · exact victim f v
  · exact h.victim j x f v hx
  · exact frame f
  · exact h.frame j x f hx

theorem FrameInv.move (table : s'.pool.pageTable = s.pool.pageTable)
    (pool : s'.pool.Inv n (s.count Stage.reserves))
    (reserves : t'.stage.reserves = t.stage.reserves) (flags : t'.stage.flags = t.stage.flags)
    (takes : ∀ f, t'.stage.takes = some f → t.stage.takes = some f)
    (evicting : s'.pool.replacer.isEvicting = s.pool.replacer.isEvicting)
    (listed : ∀ f, f ∈ s'.pool.replacer → s.count Stage.takes f = 0) : s'.FrameInv n := by
  refine h.keep hi threads brings victim frame table (count_eq hi threads reserves) pool
    (fun f => ?_) (fun f => .inl ?_) (fun f hf => ⟨listed f hf, takes f⟩)
  · rw [evicting, flags]
  · rw [evicting]
    refine Nat.add_le_add_right (Bool.toNat_le_toNat ?_) _
    simpa [Bool.le_iff_imp] using takes f

theorem FrameInv.setStage (pool : s'.pool = s.pool) (reserves : t'.stage.reserves = t.stage.reserves)
    (flags : t'.stage.flags = t.stage.flags)
    (takes : ∀ f, t'.stage.takes = some f → t.stage.takes = some f) : s'.FrameInv n :=
  h.move hi threads brings victim frame (by rw [pool]) (pool ▸ h.pool) reserves flags takes
    (by rw [pool]) fun f hf => h.listed f (pool ▸ hf)

end Stays

theorem FrameInv.inserted (hlocks : s.LocksInv) (hi : s.threads[i]? = some t)
    {stage : Stage} {f : FrameId} {replaced : Option PageId}
    (threads : s'.threads = s.threads.set i { t with stage := stage })
    (hbrings : t.stage.brings = true) (hpool : s'.pool.Inv n (s'.count Stage.reserves))
    (hins : s.pool.Inserted t.page f replaced s'.pool)
    (flags : stage.flags = t.stage.flags) (takes : ∀ g, stage.takes ≠ some g)
    (gone : ∀ v, replaced = some v → t.stage.takes = some f ∧ t.stage.evicts = some v ∧
      s.pool.pageTable v = some f)
    (brings : stage.brings = false) (victim : stage.victim = none) (frame : stage.frame = some f) :
    s'.FrameInv n := by
  have habsent := h.brings i t hi hbrings
  have htaken := count_le hi threads fun g hg => absurd hg (takes g)
  refine ⟨hpool, fun g => ?_, fun g => ?_, fun g hg => ?_, fun j x hj hb => ?_,
    fun j x g w hj hv => ?_, fun j x g hj hf => ?_⟩
  · rw [hins.flags]
    rw [count_eq hi threads flags]
    exact h.flagged g
  · rw [hins.flags]
    exact le_trans (Nat.add_le_add_right (htaken g) _) (h.single g)
  · exact Nat.le_zero.1 ((htaken g).trans (h.listed g ((hins.mem g).1 hg).1).le)
  · rw [threads] at hj
    rcases getElem?_set_cases hj with ⟨-, rfl⟩ | ⟨hne, hx⟩
    · rw [brings] at hb
      cases hb
    · have hpage : x.page ≠ t.page := fun hpage => hne
        ((hlocks t.page).mutex_unique hi rfl (Stage.inMutex_of_brings hbrings) hx hpage
          (Stage.inMutex_of_brings hb))
      rw [hins.pageTable, if_neg hpage]
      split
      · rfl
      · exact h.brings j x hx hb
  · rw [threads] at hj
    rcases getElem?_set_cases hj with ⟨-, rfl⟩ | ⟨hne, hx⟩
    · rw [victim] at hv
      cases hv
    · have hw := h.victim j x g w hx hv
      have hwp : w ≠ t.page := by
        rintro rfl
        rw [habsent] at hw
        cases hw
      rw [hins.pageTable, if_neg hwp]
      split
      · -- the other thread has chosen the same frame
        rename_i hrep
        obtain ⟨htakes, -, hold⟩ := gone w hrep
        obtain rfl : f = g := Option.some.inj (hold.symm.trans hw)
        have hsingle := h.single f
        rw [← h.flagged f] at hsingle
        have hpos := count_pos hi htakes
        rcases Stage.flags_or_takes_of_victim hv with hflag | htake'
        · have := count_pos hx hflag
          omega
        · have hle : s.count Stage.takes f ≤ 1 := by omega
          exact absurd (eq_of_countP_le_one hle hx hi (by simpa using htake')
            (by simpa using htakes)) hne
      · exact hw
  · rw [threads] at hj
    rcases getElem?_set_cases hj with ⟨-, rfl⟩ | ⟨hne, hx⟩
    · obtain rfl : f = g := Option.some.inj (frame.symm.trans hf)
      rw [hins.pageTable]
      exact if_pos rfl
    · have hg := h.frame j x g hx hf
      have hpage : x.page ≠ t.page := by
        intro hpage
        rw [hpage, habsent] at hg
        cases hg
      rw [hins.pageTable, if_neg hpage]
      split
      · rename_i hrep
        exact absurd (gone _ hrep).2.1
          ((hlocks x.page).not_evicts hx rfl (Stage.hasLock_of_frame hf) hi)
      · exact hg

theorem FrameInv.release (hlocks : s.LocksInv) (hi : s.threads[i]? = some t)
    {f : FrameId} {l : LocalPageLock} (hframe : t.stage.frame = some f)
    (threads : s'.threads = s.threads.set i t')
    (hold : t.stage.reserves = none ∧ t.stage.flags = none) (left : t'.stage = .left)
    (unpin : (if l.lock = 0 then s.pool.unpinPage t.page else .next s.pool) = .next s'.pool) :
    s'.FrameInv n := by
  have hf := h.frame i t f hi hframe
  have hnone : t'.stage.reserves = t.stage.reserves ∧ t'.stage.flags = t.stage.flags := by
    rw [left, hold.1, hold.2]
    exact ⟨rfl, rfl⟩
  have hmove : s'.pool.pageTable = s.pool.pageTable → s'.pool.Inv n (s.count Stage.reserves) →
      s'.pool.replacer.isEvicting = s.pool.replacer.isEvicting →
      (∀ g, g ∈ s'.pool.replacer → s.count Stage.takes g = 0) → s'.FrameInv n := by
    intro htable hpool hev hlisted
    refine h.move hi threads ?_ ?_ ?_ htable hpool hnone.1 hnone.2 ?_ hev hlisted <;>
      rw [left] <;> nofun
  split at unpin
  · obtain ⟨pool', hcall, hinv, hunpinned⟩ := h.pool.unpinPage hf
    obtain rfl : pool' = s'.pool := next.inj (hcall.symm.trans unpin)
    refine hmove hunpinned.same.pageTable hinv hunpinned.flags fun g hg => ?_
    rcases (hunpinned.mem g).1 hg with rfl | hg
    · -- a thread that is about to take the frame evicts the page, which is locked
      refine List.countP_eq_zero.2 fun x hx htakes => ?_
      obtain ⟨j, hj⟩ := List.mem_iff_getElem?.1 hx
      obtain ⟨v, hv, hevicts⟩ := Stage.evicts_of_takes (of_decide_eq_true htakes)
      have hmapped := h.victim j x g v hj hv
      obtain rfl : v = t.page := Option.some.inj (((h.pool.owned.mapped v g).1 hmapped).symm.trans
        ((h.pool.owned.mapped t.page g).1 hf))
      exact (hlocks t.page).not_evicts hi rfl (Stage.hasLock_of_frame hframe) hj hevicts
    · exact h.listed g hg
  · rw [← next.inj unpin] at hmove
    exact hmove rfl h.pool rfl h.listed

theorem FrameInv.release_table (hi : s.threads[i]? = some t) {f : FrameId}
    {l : LocalPageLock} {pool : Pool} (hframe : t.stage.frame = some f)
    (unpin : (if l.lock = 0 then s.pool.unpinPage t.page else .next s.pool) = .next pool) :
    pool.pageTable = s.pool.pageTable := by
  split at unpin
  · obtain ⟨pool', hcall, -, hunpinned⟩ := h.pool.unpinPage (h.frame i t f hi hframe)
    obtain rfl : pool' = pool := next.inj (hcall.symm.trans unpin)
    exact hunpinned.same.pageTable
  · rw [next.inj unpin]

theorem FrameInv.flag_set {f : FrameId} (hi : s.threads[i]? = some t)
    (hflags : t.stage.flags = some f) : s.pool.replacer.isEvicting f = true := by
  have hpos := count_pos hi hflags
  rw [h.flagged] at hpos
  cases hev : s.pool.replacer.isEvicting f with
  | false => simp [hev] at hpos
  | true => rfl

/-- Every step keeps the frames. -/
theorem FrameInv.step (hlocks : s.LocksInv) (hs : Step me s s') :
    s'.FrameInv n := by
  cases hs with
  | call v vs =>
    let new : Thread := { visit := v, rest := vs, stage := .idle }
    have hnew : ∀ P : Thread → Bool, P new = false →
        (s.threads ++ [new]).countP P = s.threads.countP P := by
      intro P hP
      rw [List.countP_append, List.countP_singleton, hP]
      rfl
    have hold : ∀ {j : Nat} {x : Thread}, (s.threads ++ [new])[j]? = some x →
        s.threads[j]? = some x ∨ x = new := by
      intro j x hj
      rw [List.getElem?_append] at hj
      split at hj
      · exact .inl hj
      · exact .inr (List.mem_singleton.1 (List.mem_of_getElem? hj))
    have hcount : ∀ g : Stage → Option FrameId, g .idle = none →
        count g { s with threads := s.threads ++ [new] } = s.count g := fun g hg =>
      funext fun f => hnew _ (by simp [new, hg])
    refine ⟨?_, fun f => ?_, fun f => ?_, fun f hf => ?_, fun j x hj hx => ?_,
      fun j x f w hj hx => ?_, fun j x f hj hx => ?_⟩
    · rw [hcount _ rfl]
      exact h.pool
    · rw [hcount _ rfl]
      exact h.flagged f
    · rw [hcount _ rfl]
      exact h.single f
    · rw [hcount _ rfl]
      exact h.listed f hf
    all_goals
      rcases hold hj with hj | rfl
    · exact h.brings j x hj hx
    · cases hx
    · exact h.victim j x f w hj hx
    · cases hx
    · exact h.frame j x f hj hx
    · cases hx
  | skip => exact h
  | addMetadataLog => exact ⟨h.pool, h.flagged, h.single, h.listed, h.brings, h.victim, h.frame⟩
  | @found i t f pool hi stage table taken =>
    obtain ⟨pool', hcall, hinv, hpinned⟩ := h.pool.fetchPage table
    obtain rfl : pool' = pool := next.inj (hcall.symm.trans taken)
    exact h.move hi rfl nofun nofun (by rintro _ ⟨⟩; exact table) hpinned.same.pageTable hinv
      (by rw [stage]; rfl) (by rw [stage]; rfl) nofun hpinned.flags
      fun f hf => h.listed f ((hpinned.mem f).1 hf).1
  | @missing i t hi stage table =>
    exact h.setStage hi rfl (fun _ => table) nofun nofun rfl (by rw [stage]; rfl)
      (by rw [stage]; rfl) nofun
  | @checkFree i t image pool frame hi stage taken =>
    have habsent := h.brings i t hi (by rw [stage]; rfl)
    obtain ⟨pool', frame', hcall, hinv, htable, -, hreplacer⟩ :=
      h.pool.checkIfDirectlyPutInBuffer habsent
    obtain ⟨rfl, rfl⟩ := Prod.mk.inj (next.inj (hcall.symm.trans taken))
    cases frame' with
    | none =>
      exact h.move hi rfl (fun _ => habsent) nofun nofun htable hinv (by rw [stage]; rfl)
        (by rw [stage]; rfl) nofun (by rw [← hreplacer]; rfl)
        fun f hf => h.listed f (hreplacer ▸ hf)
    | some f =>
      have hflags : ∀ g, (pool'.replacer.isEvicting g).toNat = (s.pool.replacer.isEvicting g).toNat :=
        fun g => by rw [hreplacer]
      exact h.keep hi rfl (fun _ => habsent) nofun nofun htable
        (count_gain hi rfl (by rw [stage]; rfl) rfl) hinv (by rw [stage]; exact hflags)
        (fun g => .inl (by simp [stage, Stage.takes, hflags]))
        fun g hg => ⟨h.listed g (hreplacer ▸ hg), nofun⟩
  | @insertFree i t image f pool hi stage taken =>
    have hbrings : t.stage.brings = true := by rw [stage]; rfl
    let s₁ := { s with pool := pool, images := Function.update s.images f image }.setStage i t
      (.found f)
    have hthreads : s₁.threads = s.threads.set i { t with stage := .found f } := rfl
    have hreserved := count_lose (g := Stage.reserves) hi hthreads (by rw [stage]; rfl) rfl
    have hpool := h.pool
    rw [hreserved] at hpool
    obtain ⟨pool', hcall, hinv, hins⟩ := hpool.insertFree (h.brings i t hi hbrings)
    obtain rfl : pool' = pool := next.inj (hcall.symm.trans taken)
    exact h.inserted hlocks hi hthreads hbrings hinv hins (by rw [stage]; rfl) nofun nofun rfl rfl
      rfl
  | @pick i start k j t image f hi stage probe =>
    obtain ⟨hmem, hfree⟩ := LRUReplacer.probe_some h.pool.listed probe
    refine h.keep hi rfl (fun _ => h.brings i t hi (by rw [stage]; rfl)) nofun nofun rfl
      (count_eq hi rfl (by rw [stage]; rfl)) ?_ (fun g => ?_) (fun g => ?_)
      fun g hg => ⟨h.listed g hg, nofun⟩
    · exact ⟨h.pool.owned.congr ⟨rfl, fun _ => rfl, rfl⟩, h.pool.listed.congr⟩
    · by_cases hg : g = f
      · simp [stage, hg, hfree]
      · simp [stage, hg, Ne.symm hg]
    · by_cases hg : g = f
      · exact .inr ⟨hg ▸ hmem, rfl⟩
      · exact .inl (by simp [stage, Stage.takes, hg])
  | @readVictim i t image f victim hi stage frame =>
    have hmapped := (h.pool.owned.mapped victim f).2 frame
    exact h.setStage hi rfl (fun _ => h.brings i t hi (by rw [stage]; rfl))
      (by rintro _ _ ⟨⟩; exact hmapped) nofun rfl (by rw [stage]; rfl) (by rw [stage]; rfl) nofun
  | @win i t image f victim l hi stage taken =>
    exact h.setStage hi rfl (fun _ => h.brings i t hi (by rw [stage]; rfl))
      (fun g v hv => h.victim i t g v hi (by rw [stage]; exact hv)) nofun rfl (by rw [stage]; rfl)
      (by rw [stage]; rfl) nofun
  | @endVictimFalse i t image f hi stage =>
    have hflag := h.flag_set hi (f := f) (by rw [stage]; rfl)
    refine h.keep hi rfl (fun _ => h.brings i t hi (by rw [stage]; rfl)) nofun nofun rfl
      (count_eq hi rfl (by rw [stage]; rfl)) ?_ (fun g => ?_) (fun g => .inl ?_)
      (fun g hg => ⟨?_, nofun⟩)
    · exact ⟨h.pool.owned.congr ⟨rfl, fun _ => rfl, rfl⟩, h.pool.listed.endVictim false f⟩
    · by_cases hg : g = f
      · simp [stage, hg, hflag]
      · simp [stage, hg, Ne.symm hg]
    · by_cases hg : g = f
      · simp [stage, Stage.takes, hg]
      · simp [stage, Stage.takes, hg]
    · exact h.listed g (h.pool.listed.mem_endVictim.1 hg).1
  | @endVictimTrue i t image f victim hi stage =>
    have hflag := h.flag_set hi (f := f) (by rw [stage]; rfl)
    refine h.keep hi rfl (fun _ => h.brings i t hi (by rw [stage]; rfl))
      (fun g v hv => h.victim i t g v hi (by rw [stage]; exact hv)) nofun rfl
      (count_eq hi rfl (by rw [stage]; rfl)) ?_ (fun g => ?_) (fun g => .inl ?_) (fun g hg => ?_)
    · exact ⟨h.pool.owned.congr ⟨rfl, fun _ => rfl, rfl⟩, h.pool.listed.endVictim true f⟩
    · by_cases hg : g = f
      · simp [stage, hg, hflag]
      · simp [stage, hg, Ne.symm hg]
    · by_cases hg : g = f
      · simp [stage, Stage.takes, hg, hflag]
      · simp [stage, Stage.takes, hg, Ne.symm hg]
    · obtain ⟨hmem, hne⟩ := h.pool.listed.mem_endVictim.1 hg
      refine ⟨h.listed g hmem, fun htakes => absurd ⟨rfl, ?_⟩ hne⟩
      exact (Option.some.inj htakes).symm
  | @choose i t image f victim hi stage =>
    exact h.setStage hi rfl (fun _ => h.brings i t hi (by rw [stage]; rfl))
      (fun g v hv => h.victim i t g v hi (by rw [stage]; exact hv)) nofun rfl (by rw [stage]; rfl)
      (by rw [stage]; rfl) fun g hg => by rw [stage]; exact hg
  | @fetchVictim i t image f victim pool hi stage taken =>
    have hmapped := h.victim i t f victim hi (by rw [stage]; rfl)
    obtain ⟨pool', hcall, hinv, hpinned⟩ := h.pool.fetchPage hmapped
    obtain rfl : pool' = pool := next.inj (hcall.symm.trans taken)
    exact h.move hi rfl (fun _ => h.brings i t hi (by rw [stage]; rfl))
      (by rintro _ _ ⟨⟩; exact hmapped) nofun hpinned.same.pageTable hinv (by rw [stage]; rfl)
      (by rw [stage]; rfl) (fun g hg => by rw [stage]; exact hg) hpinned.flags
      fun f hf => h.listed f ((hpinned.mem f).1 hf).1
  | @replace i t image f victim pool hi stage taken =>
    have hbrings : t.stage.brings = true := by rw [stage]; rfl
    have hmapped := h.victim i t f victim hi (by rw [stage]; rfl)
    let s₁ := { s with pool := pool, images := Function.update s.images f image }.setStage i t
      (.replaced f victim)
    have hthreads : s₁.threads = s.threads.set i { t with stage := .replaced f victim } := rfl
    have hreserved := count_eq (g := Stage.reserves) hi hthreads (by rw [stage]; rfl)
    obtain ⟨pool', hcall, hinv, hins⟩ := h.pool.replace (h.brings i t hi hbrings) hmapped
    obtain rfl : pool' = pool := next.inj (hcall.symm.trans taken)
    refine h.inserted hlocks hi hthreads hbrings (hreserved ▸ hinv) hins (by rw [stage]; rfl) nofun
      ?_ rfl rfl rfl
    rintro _ ⟨⟩
    rw [stage]
    exact ⟨rfl, rfl, hmapped⟩
  | @work i t f st lsn hi stage exclusive worked =>
    have hframe := h.frame i t f hi (by rw [stage]; rfl)
    cases lsn <;>
      exact h.setStage hi rfl nofun nofun (by rintro _ ⟨⟩; exact hframe) rfl (by rw [stage]; rfl)
        (by rw [stage]; rfl) nofun
  | @releaseShared i t f stop r l pool hi stage shared taken unpin
  | @releaseExclusive i t f stop r l pool hi stage exclusive taken unpin =>
    exact h.release hlocks hi (by rw [stage]; rfl) rfl (by rw [stage]; exact ⟨rfl, rfl⟩) rfl unpin
  | @next i t v vs hi stage | lockShared hi stage | lockExclusive hi stage =>
    exact h.setStage hi rfl nofun nofun nofun rfl (by rw [stage]; rfl) (by rw [stage]; rfl) nofun
  | @endEvict i t f victim l hi stage taken | @unlockMtx i t f hi stage
  | @inspect i t f stop hi stage | @setNewestLsn i t f lsn hi stage =>
    have hframe := h.frame i t f hi (by rw [stage]; rfl)
    exact h.setStage hi rfl nofun nofun (by rintro _ ⟨⟩; exact hframe) rfl (by rw [stage]; rfl)
      (by rw [stage]; rfl) nofun
  | _ hi stage =>
    have hbrings := h.brings _ _ hi (by rw [stage]; rfl)
    exact h.setStage hi rfl (fun _ => hbrings) nofun nofun rfl (by rw [stage]; rfl)
      (by rw [stage]; rfl) nofun

end Frame

end OwnerNode

end BufferPool
