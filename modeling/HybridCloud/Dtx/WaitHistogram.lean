import Mathlib

/-!
# The histogram of waiting times

`HistBucketOfNs` and the bound that `WaitUsPercentile` reports for a bucket
(src/core/dtx/lock_wait.h). The buckets are linear inside an octave and the bounds are geometric.
-/

namespace LockWait

/-- An octave has `2 ^ kBucketBits` buckets. -/
def kBucketBits : Nat := 3

/-- The octaves before the last bucket. -/
def kOctaves : Nat := 24

/-- The number of buckets. -/
def kHistBuckets : Nat := (kOctaves + 1) <<< kBucketBits

/-- The time in microseconds, rounded up and at least 1. -/
def waitUs (ns : Nat) : Nat :=
  let us := (ns + 999) % 2 ^ 64 / 1000
  if us = 0 then 1 else us

/-- The loop that looks for the highest bit; each round raises `e`, which stays below 63. -/
def highestBit (us : Nat) : Nat → Nat → Nat
  | 0, e => e
  | fuel + 1, e => if e + 1 < 63 ∧ us >>> (e + 1) ≠ 0 then highestBit us fuel (e + 1) else e

/-- `HistBucketOfNs`: the bucket of a wait of `ns` nanoseconds. -/
def histBucketOfNs (ns : Nat) : Nat :=
  let us := waitUs ns
  let e := highestBit us 63 0
  let idx :=
    if e < kBucketBits then us - 1
    else (e <<< kBucketBits) + ((us >>> (e - kBucketBits)) &&& ((1 <<< kBucketBits) - 1))
  if idx < kHistBuckets then idx else kHistBuckets - 1

theorem exists_upperUs (b : Nat) : ∃ v, 2 ^ (b + 1) ≤ v ^ 8 :=
  ⟨2 ^ (b + 1), Nat.le_self_pow (by decide) _⟩

/-- `ceil(pow(2, (b + 1) / 8))`, without the rounding of the floating-point operations. -/
def upperUs (b : Nat) : Nat := Nat.find (exists_upperUs b)

/-- Where a bucket stops being covered by its bound, for each eighth of the octave that starts at
`2 ^ 24`. -/
def limits : List Nat :=
  [18295684, 19951585, 21757358, 23726567, 25874005, 28215802, 30769550, 33554432]

/-- The times that the bound of their bucket covers: in each eighth of an octave those up to a limit,
which scales with the octave. -/
def Covered (us : Nat) : Prop :=
  us ≤ 2 ∨ ∃ e m, 3 ≤ e ∧ e ≤ 24 ∧ m < 8 ∧
    (8 + m) * 2 ^ (e - 3) ≤ us ∧ us < (9 + m) * 2 ^ (e - 3) ∧
    (us - 1) * 2 ^ (24 - e) < limits.getD m 0

theorem waitUs_eq {ns : Nat} (fits : ns + 999 < 2 ^ 64) : waitUs ns = max 1 ((ns + 999) / 1000) := by
  rw [waitUs, Nat.mod_eq_of_lt fits]
  split <;> omega

theorem highestBit_spec {us : Nat} (small : us < 2 ^ 62) (fuel e : Nat) (h : 63 ≤ fuel + e)
    (he : 2 ^ e ≤ us) : highestBit us fuel e = Nat.log 2 us := by
  induction fuel generalizing e with
  | zero =>
    have := Nat.pow_le_pow_right (n := 2) (by decide) (show 62 ≤ e by omega)
    omega
  | succ fuel ih =>
    have hbit : us >>> (e + 1) ≠ 0 ↔ 2 ^ (e + 1) ≤ us := by
      rw [Nat.shiftRight_eq_div_pow, ne_eq, Nat.div_eq_zero_iff_lt (by positivity), not_lt]
    rw [highestBit]
    split
    · next hnext => exact ih (e + 1) (by omega) (hbit.1 hnext.2)
    · next hstop =>
      refine (Nat.log_eq_of_pow_le_of_lt_pow he ?_).symm
      by_contra hle
      have hbig : ¬ e + 1 < 63 := fun hlt => hstop ⟨hlt, hbit.2 (not_lt.1 hle)⟩
      have := Nat.pow_le_pow_right (n := 2) (by decide) (show 62 ≤ e by omega)
      omega

/-- The index before it is cut to the last bucket. -/
def bucketIndex (us : Nat) : Nat :=
  if Nat.log 2 us < 3 then us - 1 else 8 * Nat.log 2 us + us / 2 ^ (Nat.log 2 us - 3) - 8

theorem mantissa_bounds {us : Nat} (h : 3 ≤ Nat.log 2 us) :
    8 ≤ us / 2 ^ (Nat.log 2 us - 3) ∧ us / 2 ^ (Nat.log 2 us - 3) < 16 := by
  have hne : us ≠ 0 := by
    rintro rfl
    simp at h
  have hlow := Nat.pow_log_le_self 2 hne
  have hhigh := Nat.lt_pow_succ_log_self (b := 2) (by decide) us
  obtain ⟨k, hk⟩ := Nat.exists_eq_add_of_le h
  rw [hk, Nat.add_sub_cancel_left, Nat.le_div_iff_mul_le (by positivity),
    Nat.div_lt_iff_lt_mul (by positivity)]
  rw [hk] at hlow hhigh
  rw [pow_add] at hlow
  rw [pow_succ, pow_add] at hhigh
  omega

theorem histBucketOfNs_eq {ns : Nat} (fits : ns + 999 < 2 ^ 64) :
    histBucketOfNs ns = min (bucketIndex (waitUs ns)) (kHistBuckets - 1) := by
  have hus := waitUs_eq fits
  have hbit : highestBit (waitUs ns) 63 0 = Nat.log 2 (waitUs ns) :=
    highestBit_spec (by omega) 63 0 (by decide) (by omega)
  have hidx : bucketIndex (waitUs ns) = if Nat.log 2 (waitUs ns) < kBucketBits then waitUs ns - 1
      else (Nat.log 2 (waitUs ns) <<< kBucketBits) +
        ((waitUs ns >>> (Nat.log 2 (waitUs ns) - kBucketBits)) &&& ((1 <<< kBucketBits) - 1)) := by
    rw [bucketIndex]
    split
    · next hsmall => exact (if_pos hsmall).symm
    · next hlarge =>
      have hm := mantissa_bounds (not_lt.1 hlarge)
      refine Eq.trans ?_ (if_neg hlarge).symm
      rw [Nat.shiftLeft_eq, Nat.shiftRight_eq_div_pow]
      rw [show (1 <<< kBucketBits) - 1 = 2 ^ 3 - 1 from rfl, Nat.and_two_pow_sub_one_eq_mod]
      rw [show kBucketBits = 3 from rfl]
      omega
  rw [histBucketOfNs]
  rw [hbit, ← hidx]
  split <;> omega

theorem bucketIndex_mono (us us' : Nat) (pos : 0 < us) (h : us ≤ us') :
    bucketIndex us ≤ bucketIndex us' := by
  have hlog := Nat.log_mono_right (b := 2) h
  unfold bucketIndex
  split
  · next hsmall =>
    have hus : us < 2 ^ 3 := Nat.lt_pow_of_log_lt (by decide) hsmall
    split
    · omega
    · next hlarge =>
      have := mantissa_bounds (not_lt.1 hlarge)
      omega
  · next hlarge =>
    have hm := mantissa_bounds (not_lt.1 hlarge)
    rw [if_neg (by omega)]
    rcases hlog.eq_or_lt with heq | hlt
    · have := Nat.div_le_div_right (c := 2 ^ (Nat.log 2 us - 3)) h
      rw [← heq]
      omega
    · have := mantissa_bounds (show 3 ≤ Nat.log 2 us' by omega)
      omega

theorem le_upperUs_iff {b us : Nat} (pos : 0 < us) :
    us ≤ upperUs b ↔ (us - 1) ^ 8 < 2 ^ (b + 1) := by
  rw [upperUs, Nat.le_find_iff]
  constructor
  · intro h
    exact not_le.1 (h (us - 1) (by omega))
  · intro h m hm hle
    have := Nat.pow_le_pow_left (show m ≤ us - 1 by omega) 8
    omega

theorem lt_limits_iff {m x : Nat} (hm : m < 8) : x < limits.getD m 0 ↔ x ^ 8 < 2 ^ (193 + m) := by
  have hlimit : ∀ m < 8, (limits.getD m 0 - 1) ^ 8 < 2 ^ (193 + m) ∧
      2 ^ (193 + m) ≤ limits.getD m 0 ^ 8 := by decide +kernel
  obtain ⟨hlow, hhigh⟩ := hlimit m hm
  constructor
  · intro hx
    exact (Nat.pow_le_pow_left (Nat.le_sub_one_of_lt hx) 8).trans_lt hlow
  · intro hx
    exact lt_of_pow_lt_pow_left₀ 8 (Nat.zero_le _) (hx.trans_le hhigh)

/-- The limit of an eighth, moved from the octave at `2 ^ 24` to the one at `2 ^ e`. -/
theorem lt_limit_iff {e m x : Nat} (he : e ≤ 24) (hm : m < 8) :
    x * 2 ^ (24 - e) < limits.getD m 0 ↔ x ^ 8 < 2 ^ (8 * e + m + 1) := by
  rw [lt_limits_iff hm, mul_pow, ← pow_mul,
    show 193 + m = 8 * e + m + 1 + (24 - e) * 8 by omega, pow_add 2 (8 * e + m + 1)]
  exact Nat.mul_lt_mul_right (by positivity)

theorem eighth_iff {us e m : Nat} (he : 3 ≤ e) (hm : m < 8) :
    (8 + m) * 2 ^ (e - 3) ≤ us ∧ us < (9 + m) * 2 ^ (e - 3) ↔
      Nat.log 2 us = e ∧ us / 2 ^ (Nat.log 2 us - 3) = 8 + m := by
  have hpow : 2 ^ e = 8 * 2 ^ (e - 3) := by
    rw [show (8 : Nat) = 2 ^ 3 by rfl, ← pow_add, Nat.add_sub_cancel' he]
  have hpos : 0 < 2 ^ (e - 3) := by positivity
  constructor
  · rintro ⟨hlow, hhigh⟩
    have hlog : Nat.log 2 us = e := by
      refine Nat.log_eq_of_pow_le_of_lt_pow ?_ ?_
      · nlinarith
      · rw [pow_succ]
        nlinarith
    rw [hlog]
    exact ⟨rfl, Nat.div_eq_of_lt_le hlow (by rw [show (8 + m + 1) = 9 + m by omega]; exact hhigh)⟩
  · rintro ⟨rfl, hdiv⟩
    rw [← hdiv]
    refine ⟨Nat.div_mul_le_self _ _, ?_⟩
    rw [show 9 + m = us / 2 ^ (Nat.log 2 us - 3) + 1 by omega, mul_comm]
    exact Nat.lt_mul_div_succ us hpos

theorem covered_iff {us : Nat} (pos : 0 < us) (hlast : bucketIndex us < kHistBuckets - 1) :
    Covered us ↔ (us - 1) ^ 8 < 2 ^ (bucketIndex us + 1) := by
  unfold Covered
  unfold bucketIndex at hlast ⊢
  split
  · next hsmall =>
    have hus : us < 2 ^ 3 := Nat.lt_pow_of_log_lt (by decide) hsmall
    rw [or_iff_left]
    · interval_cases us <;> simp
    · rintro ⟨e, m, -, -, -, hlow, -⟩
      have := Nat.mul_le_mul (show 8 ≤ 8 + m by omega) (Nat.one_le_two_pow (n := e - 3))
      omega
  · next hlarge =>
    have hus : 2 ^ 3 ≤ us := Nat.pow_le_of_le_log (by omega) (not_lt.1 hlarge)
    have hmantissa := mantissa_bounds (not_lt.1 hlarge)
    rw [if_neg hlarge, show kHistBuckets = 200 from rfl] at hlast
    rw [or_iff_right (by omega)]
    constructor
    · rintro ⟨e, m, he, hle, hm, hlow, hhigh, hlimit⟩
      obtain ⟨rfl, hdiv⟩ := (eighth_iff he hm).1 ⟨hlow, hhigh⟩
      rw [lt_limit_iff hle hm] at hlimit
      rwa [hdiv, show 8 * Nat.log 2 us + (8 + m) - 8 + 1 = 8 * Nat.log 2 us + m + 1 by omega]
    · intro hlt
      obtain ⟨m, hm⟩ := Nat.exists_eq_add_of_le hmantissa.1
      have hm8 : m < 8 := by omega
      have hle : Nat.log 2 us ≤ 24 := by omega
      obtain ⟨hlow, hhigh⟩ := (eighth_iff (not_lt.1 hlarge) hm8).2 ⟨rfl, hm⟩
      refine ⟨_, m, not_lt.1 hlarge, hle, hm8, hlow, hhigh, (lt_limit_iff hle hm8).2 ?_⟩
      rwa [hm, show 8 * Nat.log 2 us + (8 + m) - 8 + 1 = 8 * Nat.log 2 us + m + 1 by omega] at hlt

/-- A longer wait is in no lower bucket; the bound of the bucket is at least the waiting time for
the times that `Covered` names, and for no others. -/
theorem histBucketOfNs_upperUs {ns : Nat} (fits : ns + 999 < 2 ^ 64) :
    (∀ ns' ≤ ns, histBucketOfNs ns' ≤ histBucketOfNs ns) ∧
    (histBucketOfNs ns ≠ kHistBuckets - 1 →
      (waitUs ns ≤ upperUs (histBucketOfNs ns) ↔ Covered (waitUs ns))) := by
  have hpos : 0 < waitUs ns := by
    rw [waitUs_eq fits]
    omega
  rw [histBucketOfNs_eq fits]
  constructor
  · intro ns' hle
    have hfits' : ns' + 999 < 2 ^ 64 := by omega
    have hus' := waitUs_eq hfits'
    have hus := waitUs_eq fits
    rw [histBucketOfNs_eq hfits']
    have := bucketIndex_mono (waitUs ns') (waitUs ns) (by omega) (by omega)
    omega
  · intro hlast
    rw [min_eq_left (by omega), le_upperUs_iff hpos, covered_iff hpos (by omega)]

/-- 46 µs is the last time of its bucket that the bound covers. -/
theorem histBucketOfNs_upperUs_limit : Covered (waitUs 46000) ∧
    histBucketOfNs 46000 = 43 ∧ waitUs 46000 ≤ upperUs (histBucketOfNs 46000) := by
  have hcovered : Covered (waitUs 46000) := .inr ⟨5, 3, by decide⟩
  refine ⟨hcovered, by decide +kernel, ?_⟩
  exact ((histBucketOfNs_upperUs (by decide)).2 (by decide +kernel)).2 hcovered

/-- A wait of 47 µs is reported as one of at most 46 µs. -/
theorem histBucketOfNs_upperUs_exceeded : waitUs 47000 = 47 ∧ histBucketOfNs 47000 = 43 ∧
    upperUs (histBucketOfNs 47000) = 46 := by
  have hbucket : histBucketOfNs 47000 = 43 := by decide +kernel
  refine ⟨by decide, hbucket, ?_⟩
  rw [hbucket, upperUs, Nat.find_eq_iff]
  refine ⟨by norm_num, fun m hm hle => ?_⟩
  have := Nat.pow_le_pow_left (show m ≤ 45 by omega) 8
  omega

end LockWait
