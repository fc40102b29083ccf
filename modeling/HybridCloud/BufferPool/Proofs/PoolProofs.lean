import HybridCloud.BufferPool.Pool

/-!
# The functions of the buffer pool

Every frame has one owner (`Pool.Owned`), and the LRU lists hold each frame at most once, in the
list of its partition (`LRUReplacer.Listed`). For each function of the pool there is one lemma that
says when its assertions hold and what it changes.
-/

namespace BufferPool

open Outcome Function

namespace LRUReplacer

variable {r : LRUReplacer} {n : Nat} {f g : FrameId}

/-- A frame that `tryVictim` may find. -/
instance : Membership FrameId LRUReplacer where
  mem r f := f ∈ r.lruLists (partitionIdx f)

theorem mem_def : f ∈ r ↔ f ∈ r.lruLists (partitionIdx f) := Iff.rfl

instance (f : FrameId) (r : LRUReplacer) : Decidable (f ∈ r) :=
  inferInstanceAs (Decidable (f ∈ r.lruLists (partitionIdx f)))

/-- The lists of a replacer for `n` frames. -/
structure Listed (n : Nat) (r : LRUReplacer) : Prop where
  maxSize : r.maxSize = n
  nodup : ∀ i, (r.lruLists i).Nodup
  frame : ∀ i, ∀ f ∈ r.lruLists i, f < n ∧ partitionIdx f = i

theorem listed_init (n : Nat) : Listed n (init n) := ⟨rfl, fun _ => .nil, nofun⟩

theorem Listed.congr (h : Listed n r) {flags : FrameId → Bool} :
    Listed n { r with isEvicting := flags } := ⟨h.maxSize, h.nodup, h.frame⟩

theorem Listed.remove (h : Listed n r) (f : FrameId) : Listed n (r.remove f) := by
  have hsub : ∀ i, ((r.remove f).lruLists i).Sublist (r.lruLists i) := by
    intro i
    by_cases hi : i = partitionIdx f
    · subst hi
      simpa [LRUReplacer.remove] using List.erase_sublist
    · simp [LRUReplacer.remove, hi]
  exact ⟨h.maxSize, fun i => (hsub i).nodup (h.nodup i),
    fun i g hg => h.frame i g ((hsub i).subset hg)⟩

theorem Listed.mem_remove (h : Listed n r) : g ∈ r.remove f ↔ g ∈ r ∧ g ≠ f := by
  by_cases hp : partitionIdx g = partitionIdx f
  · simp [mem_def, LRUReplacer.remove, hp, (h.nodup _).mem_erase_iff, and_comm]
  · have hne : g ≠ f := fun heq => hp (by rw [heq])
    simp [mem_def, LRUReplacer.remove, hp, hne]

@[simp] theorem remove_isEvicting : (r.remove f).isEvicting = r.isEvicting := rfl

@[simp] theorem choose_isEvicting :
    (r.choose f).isEvicting = update r.isEvicting f true := rfl

@[simp] theorem mem_choose : g ∈ r.choose f ↔ g ∈ r := Iff.rfl

@[simp] theorem endVictim_isEvicting {b : Bool} :
    (r.endVictim b f).isEvicting = update r.isEvicting f false := by
  cases b <;> rfl

theorem Listed.endVictim (h : Listed n r) (b : Bool) (f : FrameId) :
    Listed n (r.endVictim b f) := by
  cases b with
  | false => exact h.congr
  | true => exact (h.remove f).congr

theorem Listed.mem_endVictim (h : Listed n r) {b : Bool} :
    g ∈ r.endVictim b f ↔ g ∈ r ∧ ¬ (b = true ∧ g = f) := by
  cases b with
  | false => simp [LRUReplacer.endVictim, mem_def]
  | true => simpa [LRUReplacer.endVictim, mem_def] using h.mem_remove (f := f) (g := g)

theorem probe_some {i : Nat} (h : Listed n r) (hp : r.probe i = some f) :
    f ∈ r ∧ r.isEvicting f = false := by
  have hmem := List.mem_of_find?_eq_some hp
  have hfree := List.find?_some hp
  have hlist : f ∈ r.lruLists i := List.mem_reverse.1 (List.mem_of_mem_take hmem)
  refine ⟨?_, by simpa using hfree⟩
  rw [mem_def, (h.frame i f hlist).2]
  exact hlist

theorem Listed.unpin (h : Listed n r) (hf : f < n) :
    ∃ r', r.unpin f = .next r' ∧ Listed n r' ∧ r'.isEvicting = r.isEvicting ∧
      ∀ g, g ∈ r' ↔ g = f ∨ g ∈ r := by
  have hrem := h.remove f
  have hnot : f ∉ (r.remove f).lruLists (partitionIdx f) := fun hmem =>
    (h.mem_remove.1 hmem).2 rfl
  have hnodup : (f :: (r.remove f).lruLists (partitionIdx f)).Nodup :=
    List.nodup_cons.2 ⟨hnot, hrem.nodup _⟩
  have hlen : (f :: (r.remove f).lruLists (partitionIdx f)).length ≤ (List.range n).length := by
    refine (hnodup.subperm fun g hg => List.mem_range.2 ?_).length_le
    rcases List.mem_cons.1 hg with rfl | hg
    · exact hf
    · exact (hrem.frame _ g hg).1
  rw [List.length_cons, List.length_range] at hlen
  have hroom : ¬ ((r.remove f).lruLists (partitionIdx f)).length ≥ (r.remove f).maxSize := by
    rw [hrem.maxSize]
    omega
  obtain ⟨r', hr', hmax, hflags, hlists⟩ : ∃ r', r.unpin f = .next r' ∧ r'.maxSize = r.maxSize ∧
      r'.isEvicting = r.isEvicting ∧ ∀ i, r'.lruLists i =
        if i = partitionIdx f then f :: (r.remove f).lruLists i else (r.remove f).lruLists i := by
    rw [LRUReplacer.unpin, cassert_bind hroom]
    refine ⟨_, rfl, rfl, rfl, fun i => ?_⟩
    by_cases hi : i = partitionIdx f
    · subst hi
      simp
    · simp [hi]
  refine ⟨r', hr', ⟨hmax.trans h.maxSize, fun i => ?_, fun i g hg => ?_⟩, hflags, fun g => ?_⟩
  · rw [hlists]
    split
    · rename_i hi
      rwa [hi]
    · exact hrem.nodup i
  · rw [hlists] at hg
    split at hg
    · rename_i hi
      rcases List.mem_cons.1 hg with rfl | hg
      · exact ⟨hf, hi.symm⟩
      · exact hrem.frame i g hg
    · exact hrem.frame i g hg
  · have hmem := h.mem_remove (f := f) (g := g)
    rw [mem_def] at hmem
    rw [mem_def, hlists]
    split
    · rw [List.mem_cons, hmem]
      by_cases hg : g = f <;> simp [hg]
    · rename_i hp
      have hne : g ≠ f := fun heq => hp (by rw [heq])
      simp [hmem, hne]

end LRUReplacer

namespace Pool

variable {pool pool' : Pool} {n : Nat} {reserved : FrameId → Nat} {p old : PageId} {f g : FrameId}

/-- How often a frame is in the free lists. -/
def freeCount (pool : Pool) (f : FrameId) : Nat :=
  ∑ i ∈ Finset.range NUM_BUFFER_PARTITION, (pool.freeLists i).count f

/-- Every frame of a pool with `n` frames has one owner, where `reserved` counts the threads that have
taken a frame from a free list, and the page table agrees with the page ids in the frames. -/
structure Owned (n : Nat) (pool : Pool) (reserved : FrameId → Nat) : Prop where
  once : ∀ f, pool.freeCount f + reserved f + (pool.pages f).pageId.isSome.toNat =
    if f < n then 1 else 0
  mapped : ∀ p f, pool.pageTable p = some f ↔ (pool.pages f).pageId = some p

theorem partitionIdx_lt (p : PageId) : partitionIdx p < NUM_BUFFER_PARTITION :=
  Nat.mod_lt _ (by decide)

theorem freeCount_update (free : Nat → List FrameId) {i : Nat} {l : List FrameId}
    (hi : i < NUM_BUFFER_PARTITION) (f : FrameId) :
    (∑ j ∈ Finset.range NUM_BUFFER_PARTITION, (update free i l j).count f) +
        (free i).count f =
      (∑ j ∈ Finset.range NUM_BUFFER_PARTITION, (free j).count f) + l.count f := by
  have hmem : i ∈ Finset.range NUM_BUFFER_PARTITION := Finset.mem_range.2 hi
  rw [← Finset.add_sum_erase _ _ hmem, ← Finset.add_sum_erase _ (fun j => (free j).count f) hmem,
    update_self]
  have hrest : ∑ j ∈ (Finset.range NUM_BUFFER_PARTITION).erase i,
      (update free i l j).count f =
      ∑ j ∈ (Finset.range NUM_BUFFER_PARTITION).erase i, (free j).count f :=
    Finset.sum_congr rfl fun j hj => by rw [update_of_ne (Finset.ne_of_mem_erase hj)]
  omega

theorem owned_init (n : Nat) : Owned n (init n) fun _ => 0 := by
  refine ⟨fun f => ?_, fun p f => by simp [init]⟩
  have hcount : ∀ i, ((init n).freeLists i).count f =
      if i = partitionIdx f then (if f < n then 1 else 0) else 0 := by
    intro i
    by_cases hi : i = partitionIdx f
    · simp only [init, hi, if_true]
      rw [List.count_filter (by simp)]
      split
      · exact List.count_eq_one_of_mem List.nodup_range (List.mem_range.2 ‹_›)
      · exact List.count_eq_zero_of_not_mem (by simpa using ‹¬ f < n›)
    · rw [if_neg hi]
      refine List.count_eq_zero_of_not_mem fun hmem => hi ?_
      exact (of_decide_eq_true (List.mem_filter.1 hmem).2).symm
  have hsum : (init n).freeCount f = if f < n then 1 else 0 := by
    simp only [freeCount, hcount, Finset.sum_ite_eq', Finset.mem_range, partitionIdx_lt, if_true]
  rw [hsum]
  rfl

/-- No frame has another owner. -/
structure SameOwners (pool pool' : Pool) : Prop where
  pageTable : pool'.pageTable = pool.pageTable
  pageId : ∀ f, (pool'.pages f).pageId = (pool.pages f).pageId
  freeLists : pool'.freeLists = pool.freeLists

theorem setFrame_same {r : LRUReplacer} {k : Nat} : SameOwners pool
    ({ pool with replacer := r }.setFrame f { pool.pages f with pinCount := k }) := by
  refine ⟨rfl, fun g => ?_, rfl⟩
  by_cases hg : g = f <;> simp [setFrame, hg]

theorem pinCount_setFrame {r : LRUReplacer} {k : Nat} :
    (({ pool with replacer := r }.setFrame f { pool.pages f with pinCount := k }).pages g).pinCount =
      if g = f then k else (pool.pages g).pinCount := by
  by_cases hg : g = f <;> simp [setFrame, hg]

theorem Owned.congr (h : Owned n pool reserved) (same : SameOwners pool pool') :
    Owned n pool' reserved := by
  refine ⟨fun f => ?_, fun p f => ?_⟩
  · rw [freeCount, same.freeLists, same.pageId]
    exact h.once f
  · rw [same.pageTable, same.pageId]
    exact h.mapped p f

theorem Owned.page_unique (h : Owned n pool reserved) {q : PageId}
    (hp : pool.pageTable p = some f) (hq : pool.pageTable q = some f) : p = q :=
  Option.some.inj (((h.mapped p f).1 hp).symm.trans ((h.mapped q f).1 hq))

theorem Owned.lt_of_mapped (h : Owned n pool reserved) (hp : pool.pageTable p = some f) :
    f < n := by
  have honce := h.once f
  rw [(h.mapped p f).1 hp] at honce
  by_contra hlt
  rw [if_neg hlt] at honce
  simp at honce

/-- Every frame has one owner, and the lists have each frame once. -/
structure Inv (n : Nat) (pool : Pool) (reserved : FrameId → Nat) : Prop where
  owned : Owned n pool reserved
  listed : pool.replacer.Listed n

theorem inv_init (n : Nat) : Inv n (init n) fun _ => 0 := ⟨owned_init n, LRUReplacer.listed_init n⟩

/-- A frame that a page is mapped to is pinned once more. -/
structure Pinned (pool : Pool) (f : FrameId) (pool' : Pool) : Prop where
  same : SameOwners pool pool'
  pin : ∀ g, (pool'.pages g).pinCount = (pool.pages g).pinCount + if g = f then 1 else 0
  mem : ∀ g, g ∈ pool'.replacer ↔ g ∈ pool.replacer ∧ ¬ (g = f ∧ (pool.pages f).pinCount = 0)
  flags : pool'.replacer.isEvicting = pool.replacer.isEvicting

theorem Inv.fetchPage (h : Inv n pool reserved) (hp : pool.pageTable p = some f) :
    ∃ pool', pool.fetchPage p = .next pool' ∧ Inv n pool' reserved ∧ Pinned pool f pool' := by
  have hpin : ∀ {r : LRUReplacer} g, (({ pool with replacer := r }.setFrame f
      { pool.pages f with pinCount := (pool.pages f).pinCount + 1 }).pages g).pinCount =
      (pool.pages g).pinCount + if g = f then 1 else 0 := by
    intro r g
    rw [pinCount_setFrame]
    by_cases hg : g = f <;> simp [hg]
  unfold Pool.fetchPage
  rw [hp]
  by_cases hzero : (pool.pages f).pinCount = 0
  · refine ⟨_, by simp only [hzero, if_true]; rfl, ⟨h.owned.congr setFrame_same, h.listed.remove f⟩,
      setFrame_same, ?_, fun g => ?_, rfl⟩
    · simpa [hzero] using hpin
    · exact h.listed.mem_remove.trans (by simp [hzero])
  · refine ⟨_, by simp only [hzero, if_false]; rfl, ⟨h.owned.congr setFrame_same, h.listed⟩,
      setFrame_same, hpin, fun g => ?_, rfl⟩
    simp [hzero, setFrame]

/-- A frame is free again. -/
structure Released (pool : Pool) (p : PageId) (f : FrameId) (pool' : Pool) : Prop where
  pageTable : pool'.pageTable = update pool.pageTable p none
  pin : ∀ g, g ≠ f → (pool'.pages g).pinCount = (pool.pages g).pinCount
  mem : ∀ g, g ∈ pool'.replacer ↔ g ∈ pool.replacer ∧ g ≠ f
  flags : pool'.replacer.isEvicting = pool.replacer.isEvicting

theorem Owned.unmap (h : Owned n pool reserved) (hp : pool.pageTable p = some f) {q : PageId}
    {g : FrameId} : update pool.pageTable p none q = some g ↔
      (update pool.pages f { pageId := none, pinCount := 0 } g).pageId = some q := by
  have hf := (h.mapped p f).1 hp
  by_cases hq : q = p
  · subst hq
    by_cases hg : g = f
    · simp [hg]
    · rw [update_of_ne hg, ← h.mapped, hp]
      simp [Ne.symm hg]
  · rw [update_of_ne hq]
    by_cases hg : g = f
    · subst hg
      rw [update_self, h.mapped, hf]
      simp [Ne.symm hq]
    · rw [update_of_ne hg]
      exact h.mapped q g

theorem Inv.releasePage (h : Inv n pool reserved) (hp : pool.pageTable p = some f) :
    ∃ pool', pool.releasePage p = .next pool' ∧ Inv n pool' reserved ∧
      Released pool p f pool' := by
  unfold Pool.releasePage
  rw [hp]
  refine ⟨_, rfl, ⟨⟨fun g => ?_, fun q g => h.owned.unmap hp⟩, h.listed.remove f⟩, rfl,
    fun g hg => by simp [hg], fun g => h.listed.mem_remove, rfl⟩
  have honce := h.owned.once g
  have hfree := freeCount_update pool.freeLists
    (l := pool.freeLists (partitionIdx p) ++ [f]) (partitionIdx_lt p) g
  simp only [freeCount, List.count_append, List.count_singleton] at honce hfree ⊢
  by_cases hg : g = f
  · subst hg
    rw [(h.owned.mapped p g).1 hp] at honce
    simp only [update_self, Option.isSome_none, Option.isSome_some, Bool.toNat_true,
      Bool.toNat_false, beq_self_eq_true, if_true] at honce hfree ⊢
    omega
  · have hne : (f == g) = false := by simpa using Ne.symm hg
    rw [update_of_ne hg]
    rw [hne] at hfree
    simp only [Bool.false_eq_true, if_false] at hfree
    omega

theorem Pinned.released {pool'' : Pool} (h : Pinned pool f pool') (h' : Released pool' p f pool'') :
    Released pool p f pool'' := by
  refine ⟨by rw [h'.pageTable, h.same.pageTable], fun g hg => ?_, fun g => ?_,
    h'.flags.trans h.flags⟩
  · rw [h'.pin g hg, h.pin, if_neg hg, Nat.add_zero]
  · rw [h'.mem, h.mem]
    by_cases hg : g = f <;> simp [hg]

/-- A frame is in the LRU lists again. -/
structure Unpinned (pool : Pool) (f : FrameId) (pool' : Pool) : Prop where
  same : SameOwners pool pool'
  pin : ∀ g, (pool'.pages g).pinCount = if g = f then 0 else (pool.pages g).pinCount
  mem : ∀ g, g ∈ pool'.replacer ↔ g = f ∨ g ∈ pool.replacer
  flags : pool'.replacer.isEvicting = pool.replacer.isEvicting

theorem Inv.unpinPage (h : Inv n pool reserved) (hp : pool.pageTable p = some f) :
    ∃ pool', pool.unpinPage p = .next pool' ∧ Inv n pool' reserved ∧ Unpinned pool f pool' := by
  obtain ⟨r, hr, hlisted, hflags, hmem⟩ := h.listed.unpin (h.owned.lt_of_mapped hp)
  unfold Pool.unpinPage
  rw [hp]
  have hsame := @setFrame_same pool f r 0
  exact ⟨_, by simp only [hr, next_bind]; rfl, ⟨h.owned.congr hsame, hlisted⟩, hsame,
    fun g => pinCount_setFrame, hmem, hflags⟩

/-- The frames that threads have taken, after a thread has taken one more. -/
def addOne (reserved : FrameId → Nat) (f : Option FrameId) (g : FrameId) : Nat :=
  reserved g + if f = some g then 1 else 0

theorem Inv.checkIfDirectlyPutInBuffer (h : Inv n pool reserved) (hp : pool.pageTable p = none) :
    ∃ pool' f, pool.checkIfDirectlyPutInBuffer p = .next (pool', f) ∧
      Inv n pool' (addOne reserved f) ∧ pool'.pageTable = pool.pageTable ∧
      pool'.pages = pool.pages ∧ pool'.replacer = pool.replacer := by
  unfold Pool.checkIfDirectlyPutInBuffer
  rw [cassert_bind hp]
  cases hl : pool.freeLists (partitionIdx p) with
  | nil => exact ⟨pool, none, rfl, h, rfl, rfl, rfl⟩
  | cons f rest =>
    refine ⟨_, some f, rfl, ⟨⟨fun g => ?_, h.owned.mapped⟩, h.listed⟩, rfl, rfl, rfl⟩
    have honce := h.owned.once g
    have hfree := freeCount_update pool.freeLists (l := rest) (partitionIdx_lt p) g
    simp only [freeCount, addOne, hl, List.count_cons, Option.some.injEq, beq_iff_eq] at *
    omega

/-- A page has got a frame. -/
structure Inserted (pool : Pool) (p : PageId) (f : FrameId) (replaced : Option PageId)
    (pool' : Pool) : Prop where
  pageTable : ∀ q, pool'.pageTable q =
    if q = p then some f else if replaced = some q then none else pool.pageTable q
  pageId : ∀ g, (pool'.pages g).pageId = if g = f then some p else (pool.pages g).pageId
  pin : ∀ g, (pool'.pages g).pinCount = (pool.pages g).pinCount
  mem : ∀ g, g ∈ pool'.replacer ↔ g ∈ pool.replacer ∧ g ≠ f
  flags : pool'.replacer.isEvicting = pool.replacer.isEvicting
  freeLists : pool'.freeLists = pool.freeLists

theorem insertOrReplace_next (listed : pool.replacer.Listed n) {r : Option PageId}
    (hold : ∀ old, r = some old → pool.pageTable old ≠ none) (hp : pool.pageTable p = none) :
    ∃ pool', pool.insertOrReplace p f r = .next pool' ∧ Inserted pool p f r pool' ∧
      pool'.replacer.Listed n := by
  have hnone : ∀ {old : PageId}, update pool.pageTable old none p = none := by
    intro old
    by_cases hpo : p = old
    · simp [hpo]
    · simpa [hpo] using hp
  unfold Pool.insertOrReplace
  rw [cassert_bind hold]
  cases r with
  | none | some old =>
    simp only [cassert_bind hp, cassert_bind hnone]
    refine ⟨_, rfl, ⟨fun q => ?_, fun g => ?_, fun g => ?_, fun g => listed.mem_remove, rfl, rfl⟩,
      listed.remove f⟩
    · simp [update_apply, eq_comm]
    · by_cases hg : g = f <;> simp [hg]
    · by_cases hg : g = f <;> simp [hg]

theorem Owned.inserted (h : Owned n pool reserved) (hp : pool.pageTable p = none)
    (hins : Inserted pool p f (pool.pages f).pageId pool') (q : PageId) (g : FrameId) :
    pool'.pageTable q = some g ↔ (pool'.pages g).pageId = some q := by
  rw [hins.pageTable, hins.pageId]
  by_cases hq : q = p <;> by_cases hg : g = f
  · simp [hq, hg]
  · have hnot := (h.mapped p g).not.1 (by simp [hp])
    simp [hq, hg, Ne.symm hg, hnot]
  · simp [hq, hg, Ne.symm hq, h.mapped]
  · simp only [if_neg hq, if_neg hg]
    split
    · -- the page that was replaced had no other frame
      rename_i hold
      rw [← h.mapped] at hold
      simp [← h.mapped, hold, Ne.symm hg]
    · exact h.mapped q g

theorem Inv.insertFree (h : Inv n pool (addOne reserved (some f))) (hp : pool.pageTable p = none) :
    ∃ pool', pool.insertOrReplace p f none = .next pool' ∧ Inv n pool' reserved ∧
      Inserted pool p f none pool' := by
  obtain ⟨pool', heq, hins, hlisted⟩ := insertOrReplace_next (f := f) (r := none) h.listed nofun hp
  have hfree : (pool.pages f).pageId = none := by
    have honce := h.owned.once f
    simp only [addOne, if_true] at honce
    by_contra hsome
    have : (pool.pages f).pageId.isSome = true := Option.isSome_iff_ne_none.2 hsome
    rw [this, Bool.toNat_true] at honce
    split at honce <;> omega
  refine ⟨pool', heq, ⟨⟨fun g => ?_, h.owned.inserted hp (hfree ▸ hins)⟩, hlisted⟩, hins⟩
  have honce := h.owned.once g
  rw [freeCount, hins.freeLists, hins.pageId]
  by_cases hg : g = f
  · subst hg
    simp only [addOne, if_true, hfree, Option.isSome_none, Option.isSome_some, Bool.toNat_true,
      Bool.toNat_false, freeCount] at honce ⊢
    omega
  · have hne : some f ≠ some g := fun heq => hg (Option.some.inj heq).symm
    simp only [addOne, if_neg hne, if_neg hg, freeCount] at honce ⊢
    omega

theorem Inv.replace (h : Inv n pool reserved) (hp : pool.pageTable p = none)
    (hold : pool.pageTable old = some f) :
    ∃ pool', pool.insertOrReplace p f (some old) = .next pool' ∧ Inv n pool' reserved ∧
      Inserted pool p f (some old) pool' := by
  obtain ⟨pool', heq, hins, hlisted⟩ := insertOrReplace_next (f := f) (r := some old) h.listed
    (by rintro _ ⟨⟩; simp [hold]) hp
  have hf := (h.owned.mapped old f).1 hold
  refine ⟨pool', heq, ⟨⟨fun g => ?_, h.owned.inserted hp (hf ▸ hins)⟩, hlisted⟩, hins⟩
  have honce := h.owned.once g
  rw [freeCount, hins.freeLists, hins.pageId]
  by_cases hg : g = f
  · subst hg
    simpa [hf, freeCount] using honce
  · simpa [hg, freeCount] using honce

end Pool

end BufferPool
