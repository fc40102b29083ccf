import HybridCloud.Storage.Page

/-!
# The lock of a tuple and who has it

The lock word of a tuple is a count of readers or the mark of a writer. `TupleLock` puts next to it
the transactions that have the tuple in `read_keys` and in `write_keys`; `Accounted` says that the
word is right about them. `Move` lists what SQL transactions do to the lock, `Move.Enabled` what the
code has checked before it does so. A move keeps the account exactly when it is `Fine`.
-/

namespace Dtx

open Storage

/-- The lock word of a tuple, the transaction that the tuple names as its last writer, and the
transactions that have the tuple in `read_keys` and in `write_keys`. -/
@[ext]
structure TupleLock where
  word : UInt64
  timeStamp : Nat
  readers : Set Nat
  writers : Set Nat

namespace TupleLock

/-- The lock word says who has the tuple: the mark of a writer stands for exactly one writer, any
other word is below it and is the number of readers. What commit and abort assert of a tuple that
they release is true. -/
structure Accounted (l : TupleLock) : Prop where
  le : l.word ≤ EXCLUSIVE_LOCKED
  exclusive : l.word = EXCLUSIVE_LOCKED ↔ ∃! t, t ∈ l.writers
  shared : l.word ≠ EXCLUSIVE_LOCKED → l.readers.encard = l.word.toNat
  writer : ∀ t ∈ l.writers, l.word = EXCLUSIVE_LOCKED ∧ l.timeStamp = t
  reader : ∀ t ∈ l.readers, l.word ≠ EXCLUSIVE_LOCKED ∧ l.word ≠ UNLOCKED

/-- What a transaction does to the lock of a row. -/
inductive Move where
  | stay
  | read
  /-- It becomes the writer; with `upgrade` it was a reader before. -/
  | write (upgrade : Bool)
  | commitRead
  | abortRead
  /-- The writer commits or aborts. -/
  | unlock

namespace Move

/-- What becomes of the lock when transaction `t` makes the move. -/
def apply (t : Nat) (l : TupleLock) : Move → TupleLock
  | .stay => l
  | .read => { l with word := l.word + 1, readers := insert t l.readers }
  | .write upgrade =>
    { word := EXCLUSIVE_LOCKED
      timeStamp := t
      readers := if upgrade then l.readers \ {t} else l.readers
      writers := insert t l.writers }
  | .commitRead => { l with word := l.word - 1, readers := l.readers \ {t} }
  | .abortRead => { l with word := UNLOCKED, readers := l.readers \ {t} }
  | .unlock => { l with word := UNLOCKED, writers := l.writers \ {t} }

/-- What the code knows when transaction `t` makes the move. -/
def Enabled (t : Nat) (l : TupleLock) : Move → Prop
  | .stay => True
  | .read => l.word ≠ EXCLUSIVE_LOCKED ∧ (l.word = UNLOCKED ∨ t ∉ l.readers)
  | .write upgrade => upgrade = false → ¬ (l.word = 1 ∧ t ∈ l.readers)
  | .commitRead | .abortRead =>
    t ∈ l.readers ∧ l.word ≠ EXCLUSIVE_LOCKED ∧ l.word ≠ UNLOCKED
  | .unlock => t ∈ l.writers ∧ l.word = EXCLUSIVE_LOCKED

/-- Nobody else has the tuple. -/
def Free (t : Nat) (l : TupleLock) : Prop :=
  l.word = UNLOCKED ∨ (l.word = 1 ∧ t ∈ l.readers) ∨ t ∈ l.writers

/-- The move is one that the lock word can follow. -/
def Fine (t : Nat) (l : TupleLock) : Move → Prop
  | .read => l.word + 1 ≠ EXCLUSIVE_LOCKED
  | .write _ => Free t l
  | .abortRead => l.word = 1
  | .stay | .commitRead | .unlock => True

end Move

variable {l : TupleLock} {t : Nat}

theorem unlocked_lt : UNLOCKED < EXCLUSIVE_LOCKED := by decide

theorem encard_add_one_inj {s : Set Nat} {n : Nat} (h : s.encard + 1 = ((n + 1 : Nat) : ℕ∞)) :
    s.encard = n :=
  WithTop.add_right_cancel ENat.one_ne_top (h.trans (Nat.cast_succ n))

/-! ## The two kinds of locks -/

theorem accounted_shared (hword : l.word < EXCLUSIVE_LOCKED) (hwriters : l.writers = ∅)
    (hreaders : l.readers.encard = l.word.toNat) : l.Accounted where
  le := UInt64.le_of_lt hword
  exclusive := by
    constructor
    · intro h
      exact absurd h (UInt64.ne_of_lt hword)
    · rintro ⟨u, hu, -⟩
      rw [hwriters] at hu
      exact absurd hu (Set.notMem_empty u)
  shared _ := hreaders
  writer u hu := by
    rw [hwriters] at hu
    exact absurd hu (Set.notMem_empty u)
  reader u hu := by
    refine ⟨UInt64.ne_of_lt hword, fun h => ?_⟩
    rw [h] at hreaders
    exact Set.notMem_empty u (Set.encard_eq_zero.1 hreaders ▸ hu)

theorem accounted_exclusive (hword : l.word = EXCLUSIVE_LOCKED) (hwriters : l.writers = {t})
    (htime : l.timeStamp = t) (hreaders : l.readers = ∅) : l.Accounted where
  le := hword ▸ UInt64.le_refl _
  exclusive := by
    rw [hwriters]
    exact ⟨fun _ => ⟨t, rfl, fun _ hu => hu⟩, fun _ => hword⟩
  shared h := absurd hword h
  writer u hu := by
    rw [hwriters] at hu
    exact ⟨hword, htime.trans hu.symm⟩
  reader u hu := by
    rw [hreaders] at hu
    exact absurd hu (Set.notMem_empty u)

section

variable (h : l.Accounted)
include h

theorem Accounted.cases :
    (l.word < EXCLUSIVE_LOCKED ∧ l.writers = ∅ ∧ l.readers.encard = l.word.toNat) ∨
    ∃ t, l.word = EXCLUSIVE_LOCKED ∧ l.writers = {t} ∧ l.timeStamp = t ∧ l.readers = ∅ := by
  by_cases hword : l.word = EXCLUSIVE_LOCKED
  · obtain ⟨t, ht, huniq⟩ := h.exclusive.1 hword
    refine .inr ⟨t, hword, ?_, (h.writer t ht).2, ?_⟩
    · exact Set.eq_singleton_iff_unique_mem.2 ⟨ht, huniq⟩
    · exact Set.eq_empty_of_forall_notMem fun u hu => (h.reader u hu).1 hword
  · exact .inl ⟨UInt64.lt_of_le_of_ne h.le hword,
      Set.eq_empty_of_forall_notMem fun u hu => hword (h.writer u hu).1, h.shared hword⟩

theorem Accounted.of_shared (hword : l.word ≠ EXCLUSIVE_LOCKED) :
    l.word < EXCLUSIVE_LOCKED ∧ l.writers = ∅ ∧ l.readers.encard = l.word.toNat := by
  rcases h.cases with hshared | ⟨u, hexcl, -⟩
  · exact hshared
  · exact absurd hexcl hword

theorem Accounted.count_reader (ht : t ∈ l.readers) :
    (l.readers \ {t}).encard + 1 = l.word.toNat := by
  rw [Set.encard_sdiff_singleton_add_one ht]
  exact h.shared (h.reader t ht).1

theorem Accounted.word_eq_one (ht : t ∈ l.readers) :
    l.word = 1 ↔ l.readers \ {t} = ∅ := by
  have hcount := h.count_reader ht
  constructor
  · intro hword
    rw [hword] at hcount
    exact Set.encard_eq_zero.1 (encard_add_one_inj hcount)
  · intro hempty
    rw [hempty, Set.encard_empty, zero_add] at hcount
    exact UInt64.toNat_inj.1 (Nat.cast_inj.1 hcount).symm

/-- The word tells whether others hold the row. -/
theorem Accounted.free_iff :
    Move.Free t l ↔ l.readers \ {t} = ∅ ∧ l.writers \ {t} = ∅ := by
  constructor
  · rintro (hword | ⟨hword, ht⟩ | ht)
    · obtain ⟨-, hwriters, hreaders⟩ := h.of_shared (by rw [hword]; decide)
      rw [hword] at hreaders
      rw [Set.encard_eq_zero.1 hreaders, hwriters, Set.empty_sdiff]
      exact ⟨rfl, rfl⟩
    · obtain ⟨-, hwriters, -⟩ := h.of_shared (by rw [hword]; decide)
      rw [hwriters, Set.empty_sdiff]
      exact ⟨(h.word_eq_one ht).1 hword, rfl⟩
    · rcases h.cases with ⟨-, hwriters, -⟩ | ⟨u, -, hwriters, -, hreaders⟩
      · rw [hwriters] at ht
        exact absurd ht (Set.notMem_empty t)
      · rw [hwriters] at ht
        rw [hreaders, hwriters, Set.mem_singleton_iff.1 ht, Set.empty_sdiff, sdiff_self]
        exact ⟨rfl, rfl⟩
  · rintro ⟨hreaders, hwriters⟩
    rcases h.cases with ⟨hword, -, hcount⟩ | ⟨u, -, hu, -, -⟩
    · by_cases ht : t ∈ l.readers
      · exact .inr (.inl ⟨(h.word_eq_one ht).2 hreaders, ht⟩)
      · rw [Set.sdiff_singleton_eq_self ht] at hreaders
        rw [hreaders, Set.encard_empty] at hcount
        exact .inl (UInt64.toNat_inj.1 (Nat.cast_inj.1 hcount).symm)
    · rw [hu] at hwriters
      have hut : u = t := by simpa [Set.sdiff_eq_empty] using hwriters
      exact .inr (.inr (by rw [hu, hut]; rfl))

/-! ## What the moves do to the account -/

theorem Accounted.read (en : Move.Enabled t l .read) :
    (Move.apply t l .read).Accounted ↔ Move.Fine t l .read := by
  obtain ⟨hword, hfresh⟩ := en
  obtain ⟨hlt, hwriters, hcount⟩ := h.of_shared hword
  have ht : t ∉ l.readers := by
    rcases hfresh with hfree | ht
    · intro ht
      exact (h.reader t ht).2 hfree
    · exact ht
  constructor
  · intro h'
    exact (h'.reader t (Set.mem_insert t _)).1
  · intro hfine
    have hsucc : (l.word + 1).toNat = l.word.toNat + 1 := by
      have : l.word.toNat < 0xFF00000000000000 := hlt
      rw [UInt64.toNat_add]
      exact Nat.mod_eq_of_lt (by simp; omega)
    refine accounted_shared ?_ hwriters ?_
    · refine UInt64.lt_of_le_of_ne (UInt64.le_iff_toNat_le.2 ?_) hfine
      show (l.word + 1).toNat ≤ _
      rw [hsucc]
      exact hlt
    · show (insert t l.readers).encard = ((l.word + 1).toNat : ℕ∞)
      rw [Set.encard_insert_of_notMem ht, hcount, hsucc]
      rfl

theorem Accounted.write {upgrade : Bool}
    (en : Move.Enabled t l (.write upgrade)) :
    (Move.apply t l (.write upgrade)).Accounted ↔ Move.Fine t l (.write upgrade) := by
  have hfree : Move.Fine t l (.write upgrade) ↔ _ := h.free_iff
  rw [hfree]
  constructor
  · intro h'
    -- the mark of a writer leaves no room for readers or for a second writer
    rcases h'.cases with ⟨hlt, -⟩ | ⟨u, -, hwriters, -, hreaders⟩
    · exact absurd rfl (UInt64.ne_of_lt hlt)
    · have hu : t ∈ ({u} : Set Nat) := hwriters ▸ Set.mem_insert t l.writers
      refine ⟨?_, ?_⟩
      · refine Set.eq_empty_of_subset_empty (Set.Subset.trans ?_ hreaders.subset)
        show l.readers \ {t} ⊆ if upgrade then l.readers \ {t} else l.readers
        split
        · exact Set.Subset.rfl
        · exact Set.sdiff_subset
      · have hsub : l.writers ⊆ {t} := by
          rw [Set.mem_singleton_iff.1 hu, ← hwriters]
          exact Set.subset_insert t l.writers
        exact Set.sdiff_eq_empty.2 hsub
  · rintro ⟨hreaders, hwriters⟩
    refine accounted_exclusive rfl ?_ rfl ?_
    · show insert t l.writers = {t}
      rw [← Set.insert_sdiff_singleton, hwriters]
      exact insert_empty_eq t
    · show (if upgrade then l.readers \ {t} else l.readers) = ∅
      cases upgrade with
      | true => exact hreaders
      | false =>
        have ht : t ∉ l.readers := fun ht => en rfl ⟨(h.word_eq_one ht).2 hreaders, ht⟩
        rwa [Set.sdiff_singleton_eq_self ht] at hreaders

theorem Accounted.commitRead (en : Move.Enabled t l .commitRead) :
    (Move.apply t l .commitRead).Accounted := by
  obtain ⟨ht, hword, hne⟩ := en
  obtain ⟨hlt, hwriters, -⟩ := h.of_shared hword
  have hpred : (l.word - 1).toNat + 1 = l.word.toNat := by
    have hpos : 0 < l.word.toNat := Nat.pos_of_ne_zero fun h0 => hne (UInt64.toNat_inj.1 h0)
    have hle : (1 : UInt64) ≤ l.word := UInt64.le_iff_toNat_le.2 hpos
    rw [UInt64.toNat_sub_of_le _ _ hle]
    exact Nat.sub_add_cancel hpos
  refine accounted_shared ?_ hwriters ?_
  · refine UInt64.lt_of_lt_of_le (UInt64.lt_iff_toNat_lt.2 ?_) (UInt64.le_of_lt hlt)
    show (l.word - 1).toNat < _
    omega
  · have hcount := h.count_reader ht
    rw [← hpred] at hcount
    exact encard_add_one_inj hcount

theorem Accounted.abortRead (en : Move.Enabled t l .abortRead) :
    (Move.apply t l .abortRead).Accounted ↔ Move.Fine t l .abortRead := by
  obtain ⟨ht, hword, -⟩ := en
  have hone : Move.Fine t l .abortRead ↔ _ := h.word_eq_one ht
  rw [hone]
  constructor
  · intro h'
    exact Set.encard_eq_zero.1 (h'.shared (UInt64.ne_of_lt unlocked_lt))
  · intro hempty
    refine accounted_shared unlocked_lt (h.of_shared hword).2.1 ?_
    show (l.readers \ {t}).encard = 0
    rw [hempty, Set.encard_empty]

theorem Accounted.unlock (en : Move.Enabled t l .unlock) :
    (Move.apply t l .unlock).Accounted := by
  obtain ⟨ht, hword⟩ := en
  rcases h.cases with ⟨hlt, -⟩ | ⟨u, -, hwriters, -, hreaders⟩
  · exact absurd hword (UInt64.ne_of_lt hlt)
  · rw [hwriters] at ht
    refine accounted_shared unlocked_lt ?_ ?_
    · show l.writers \ {t} = ∅
      rw [hwriters, Set.mem_singleton_iff.1 ht, sdiff_self]
      rfl
    · show l.readers.encard = 0
      rw [hreaders, Set.encard_empty]

theorem Accounted.apply_iff {m : Move} (en : m.Enabled t l) :
    (m.apply t l).Accounted ↔ m.Fine t l := by
  cases m with
  | stay => exact ⟨fun _ => trivial, fun _ => h⟩
  | read => exact h.read en
  | write upgrade => exact h.write en
  | commitRead => exact ⟨fun _ => trivial, fun _ => h.commitRead en⟩
  | abortRead => exact h.abortRead en
  | unlock => exact ⟨fun _ => trivial, fun _ => h.unlock en⟩

end

end TupleLock

end Dtx
