import Mathlib

/-!
# The bitmap of a page

`Bitmap` (src/core/util/bitmap.h). `bm i` is the `i`-th byte from the address `bm` on, a signed `char`.
The pages of the other modules have `isSet bm` in place of `bm`.
-/

namespace Storage.Bitmap

open Function

/-- A bitmap. -/
abbrev Bytes : Type := Nat → BitVec 8

/-- A `char` as an `int`. -/
def promote (c : BitVec 8) : BitVec 32 := c.signExtend 32

/-- The byte of a position. -/
def getBucket (pos : Nat) : Nat := pos / 8

/-- The bit of a position in its byte. -/
def getBit (pos : Nat) : BitVec 8 := (0x80#32 >>> (pos % 8)).setWidth 8

/-- The bit is set. -/
def set (bm : Bytes) (pos : Nat) : Bytes :=
  update bm (getBucket pos) ((promote (bm (getBucket pos)) ||| promote (getBit pos)).setWidth 8)

/-- The bit is cleared. -/
def reset (bm : Bytes) (pos : Nat) : Bytes :=
  update bm (getBucket pos) ((promote (bm (getBucket pos)) &&&
    promote ((~~~ promote (getBit pos)).setWidth 8)).setWidth 8)

/-- Is the bit set? -/
def isSet (bm : Bytes) (pos : Nat) : Bool :=
  promote (bm (getBucket pos)) &&& promote (getBit pos) ≠ 0

/-- The bits of the last byte that are counted. -/
def mask (tailBits : Nat) : BitVec 8 := (0xFF#32 ^^^ ((1#32 <<< (8 - tailBits)) - 1#32)).setWidth 8

/-- `getfreeposnum`: how many of the first `maxN` bits are clear. -/
def getfreeposnum (bm : Bytes) (maxN : Nat) : Int :=
  let fullBuckets := maxN / 8
  let tailBits := maxN % 8
  let freeCount : Int := (List.range fullBuckets).foldl
    (fun freeCount bucket => freeCount + (8 - ((bm bucket).setWidth 32).cpop.toNat)) 0
  if 0 < tailBits then
    freeCount + (tailBits - ((bm fullBuckets).setWidth 32 &&& (mask tailBits).setWidth 32).cpop.toNat)
  else freeCount

/-- `curr` is at least `-1`. -/
def nextBit (bit : Bool) (bm : Bytes) (maxN : Nat) (curr : Int) : Nat :=
  ((List.range' (curr + 1).toNat (maxN - (curr + 1).toNat)).find? (isSet bm · == bit)).getD maxN

/-- The steps of `next_bit(false, …)` from `curr` on, in fewer than `fuel` calls. -/
def freeSteps (bm : Bytes) (maxN : Nat) : Nat → Int → Option Nat
  | 0, _ => none
  | fuel + 1, curr =>
    let next := nextBit false bm maxN curr
    if next = maxN then some 0 else (freeSteps bm maxN fuel next).map (· + 1)

/-- The positions from `i` on with this bit. -/
def positions (bit : Bool) (bm : Bytes) (maxN i : Nat) : List Nat :=
  (List.range' i (maxN - i)).filter (isSet bm · == bit)

theorem setWidth_promote (c : BitVec 8) : (promote c).setWidth 8 = c := by
  revert c
  decide +kernel

section Bits

variable {k : Nat} (hk : k < 8)
include hk

theorem getMsbD_getBit (pos : Nat) : (getBit pos).getMsbD k = decide (k = pos % 8) := by
  have hbits : ∀ j < 8, ∀ k < 8,
      ((0x80#32 >>> j).setWidth 8 : BitVec 8).getMsbD k = decide (k = j) := by decide
  exact hbits _ (Nat.mod_lt _ (by decide)) k hk

theorem getMsbD_mask {t : Nat} (ht : t < 8) : (mask t).getMsbD k = decide (k < t) := by
  have hbits : ∀ t < 8, ∀ k < 8, (mask t).getMsbD k = decide (k < t) := by decide
  exact hbits t ht k hk

end Bits

theorem cpop_byte (c : BitVec 8) :
    (c.setWidth 32).cpop.toNat = (List.range 8).countP c.getMsbD := by
  rw [BitVec.toNat_cpop_setWidth_eq_of_le (by decide)]
  revert c
  decide +kernel

theorem cpop_mask (c : BitVec 8) {t : Nat} (ht : t < 8) :
    (c.setWidth 32 &&& (mask t).setWidth 32).cpop.toNat = (List.range t).countP c.getMsbD := by
  have hsplit : List.range 8 = List.range t ++ (List.range (8 - t)).map (t + ·) := by
    rw [← List.range_add, Nat.add_sub_of_le (Nat.le_of_lt ht)]
  rw [← BitVec.setWidth_and, cpop_byte, hsplit, List.countP_append, List.countP_map]
  have hfirst : ∀ k ∈ List.range t, (c &&& mask t).getMsbD k = true ↔ c.getMsbD k = true := by
    intro k hk
    have hkt := List.mem_range.1 hk
    simp [getMsbD_mask (Nat.lt_trans hkt ht) ht, hkt]
  have hrest : (List.range (8 - t)).countP ((c &&& mask t).getMsbD ∘ (t + ·)) = 0 := by
    refine List.countP_eq_zero.2 fun k hk => ?_
    have hk8 : t + k < 8 := Nat.add_lt_of_lt_sub' (List.mem_range.1 hk)
    simp [getMsbD_mask hk8 ht]
  rw [hrest, List.countP_congr hfirst, Nat.add_zero]

variable (bm : Bytes)

/-- Bits are counted from the most significant one on. -/
theorem isSet_eq (pos : Nat) : isSet bm pos = (bm (pos / 8)).getMsbD (pos % 8) := by
  have hbyte : ∀ k < 8, ∀ c : BitVec 8,
      decide (promote c &&& promote ((0x80#32 >>> k).setWidth 8) ≠ 0) = c.getMsbD k := by
    decide +kernel
  exact hbyte _ (Nat.mod_lt _ (by decide)) _

theorem isSet_update {pos : Nat} {c : BitVec 8} {b : Bool}
    (h : ∀ k < 8, c.getMsbD k = if k = pos % 8 then b else (bm (pos / 8)).getMsbD k) :
    isSet (update bm (getBucket pos) c) = update (isSet bm) pos b := by
  funext q
  rw [isSet_eq, getBucket, update_apply, update_apply, isSet_eq bm q]
  by_cases hq : q / 8 = pos / 8
  · rw [if_pos hq, h _ (Nat.mod_lt _ (by decide)), ← hq]
    exact if_congr (by omega) rfl rfl
  · rw [if_neg hq, if_neg (by omega)]

theorem isSet_set (pos : Nat) : isSet (set bm pos) = update (isSet bm) pos true := by
  refine isSet_update bm fun k hk => ?_
  rw [BitVec.setWidth_or, setWidth_promote, setWidth_promote, BitVec.getMsbD_or,
    getMsbD_getBit hk]
  by_cases hpos : k = pos % 8 <;> simp [hpos, getBucket]

theorem isSet_reset (pos : Nat) : isSet (reset bm pos) = update (isSet bm) pos false := by
  refine isSet_update bm fun k hk => ?_
  have hnot : (~~~ promote (getBit pos)).setWidth 8 = ~~~ getBit pos := by
    rw [BitVec.setWidth_not (by decide), setWidth_promote]
  rw [BitVec.setWidth_and, hnot, setWidth_promote, setWidth_promote, BitVec.getMsbD_and,
    BitVec.getMsbD_not, getMsbD_getBit hk]
  by_cases hpos : k = pos % 8 <;> simp [hpos, hk, getBucket]

theorem countP_bucket (bucket : Nat) {t : Nat} (ht : t ≤ 8) :
    (List.range (8 * bucket + t)).countP (!isSet bm ·) +
        (List.range t).countP (bm bucket).getMsbD =
      (List.range (8 * bucket)).countP (!isSet bm ·) + t := by
  have hbits : ∀ k ∈ List.range t, (!isSet bm (8 * bucket + k)) = true ↔
      decide (¬ (bm bucket).getMsbD k = true) = true := by
    intro k hk
    have hk8 : k < 8 := Nat.lt_of_lt_of_le (List.mem_range.1 hk) ht
    rw [isSet_eq, Nat.mul_add_mod, Nat.mod_eq_of_lt hk8, Nat.mul_add_div (by decide),
      Nat.div_eq_of_lt hk8, Nat.add_zero]
    simp
  have hlen := List.length_eq_countP_add_countP (bm bucket).getMsbD (l := List.range t)
  rw [List.length_range] at hlen
  rw [List.range_add, List.countP_append, List.countP_map]
  have hsplit := List.countP_congr hbits
  simp only [comp_def]
  omega

theorem getfreeposnum_eq (maxN : Nat) :
    getfreeposnum bm maxN = (List.range maxN).countP (!isSet bm ·) := by
  have hfull : ∀ n, (List.range n).foldl
      (fun freeCount bucket => freeCount + (8 - ((bm bucket).setWidth 32).cpop.toNat : Int)) 0 =
      (List.range (8 * n)).countP (!isSet bm ·) := by
    intro n
    induction n with
    | zero => rfl
    | succ n ih =>
      have hcount := countP_bucket bm n (Nat.le_refl 8)
      rw [List.range_succ, List.foldl_append, ih, Nat.mul_succ, List.foldl_cons, List.foldl_nil,
        cpop_byte]
      omega
  have htail := Nat.mod_lt maxN (by decide : 0 < 8)
  have hcount := countP_bucket bm (maxN / 8) (Nat.le_of_lt htail)
  rw [Nat.div_add_mod] at hcount
  rw [getfreeposnum, hfull, cpop_mask _ htail]
  split
  · omega
  · rename_i hzero
    rw [Nat.eq_zero_of_not_pos hzero, List.range_zero, List.countP_nil] at hcount
    omega

section

variable {bit : Bool} {maxN i : Nat}

theorem nextBit_eq : nextBit bit bm maxN (i - 1) = (positions bit bm maxN i).head?.getD maxN := by
  simp [nextBit, positions]

theorem positions_eq_cons {k : Nat} {l : List Nat} (h : positions bit bm maxN i = k :: l) :
    k < maxN ∧ l = positions bit bm maxN (k + 1) := by
  obtain ⟨before, rest, hrange, -, -, rfl⟩ := List.filter_eq_cons_iff.1 h
  obtain ⟨n, hn, -, hrest⟩ := List.range'_eq_append_iff.1 hrange
  obtain ⟨rfl, hpos, rfl⟩ := List.range'_eq_cons_iff.1 hrest.symm
  refine ⟨by omega, ?_⟩
  rw [positions, Nat.mul_one, Nat.sub_sub, Nat.sub_sub, Nat.add_assoc]

end

theorem freeSteps_eq {maxN fuel i : Nat} (hfuel : (positions false bm maxN i).length < fuel) :
    freeSteps bm maxN fuel (i - 1) = some (positions false bm maxN i).length := by
  induction fuel generalizing i with
  | zero => cases hfuel
  | succ fuel ih =>
    rw [freeSteps, nextBit_eq]
    cases h : positions false bm maxN i with
    | nil => simp
    | cons k l =>
      obtain ⟨hk, rfl⟩ := positions_eq_cons bm h
      rw [h, List.length_cons] at hfuel
      have hrest := ih (Nat.lt_of_succ_lt_succ hfuel)
      rw [Int.natCast_add, Int.natCast_one, Int.add_sub_cancel] at hrest
      simp [Nat.ne_of_lt hk, hrest]

/-- `getfreeposnum` counts the positions that are not set, which `next_bit` goes through one by one, and
`set` and `reset` change the bit at their position only. -/
theorem free_positions_counted (maxN : Nat) :
    let free := (List.range maxN).countP (!isSet bm ·)
    getfreeposnum bm maxN = free ∧ (∃ fuel, freeSteps bm maxN fuel (-1) = some free) ∧
      ∀ pos, isSet (set bm pos) = update (isSet bm) pos true ∧
        isSet (reset bm pos) = update (isSet bm) pos false := by
  have hfree : (positions false bm maxN 0).length = (List.range maxN).countP (!isSet bm ·) := by
    simp [positions, List.countP_eq_length_filter, List.range_eq_range']
  have hsteps := freeSteps_eq bm (hfree.trans_lt (Nat.lt_succ_self _))
  rw [hfree] at hsteps
  exact ⟨getfreeposnum_eq bm maxN, ⟨_, hsteps⟩, fun pos => ⟨isSet_set bm pos, isSet_reset bm pos⟩⟩

end Storage.Bitmap
