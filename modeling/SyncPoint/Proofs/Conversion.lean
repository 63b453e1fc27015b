import SyncPoint.Elapsed
import SyncPoint.Proofs.Single.Binary32

/-!
# Milliseconds between two readings

The difference of two readings is rounded to single precision, and so is its quotient by the
nanoseconds of a millisecond.  Both times the nearest number is taken, a tie going to the even one
(`Single.roundsTo_ofInt`, `Single.roundsTo_divNat`), whatever the readings are: no difference leaves
the normal range.  So the result has the sign of the difference, keeps its order and is off by two
roundings at most (`Elapsed.millis_faithful`).
-/

namespace SyncPoint

namespace Single

variable {n : ℤ} {x : Single} {den : ℕ}

/-! ## Whole numbers -/

theorem signed_natAbs (n : ℤ) : signed (n < 0) (n.natAbs / (1 : ℕ)) = n := by
  rcases Int.eq_nat_or_neg n with ⟨k, rfl | rfl⟩
  · simp [signed]
  · rcases Nat.eq_zero_or_pos k with rfl | hk
    · simp
    · simp [signed, hk]

/-- A whole number of 64 bits and a sign is rounded to the nearest number, a tie to even. -/
theorem roundsTo_ofInt (hn : |n| < 2 ^ 64) : RoundsTo n (ofInt n).bits (ofInt n).value := by
  have hrounds : RoundsTo (signed (n < 0) (n.natAbs / (1 : ℕ))) (ofInt n).bits (ofInt n).value := by
    refine roundsTo_ofRatio _ _ one_pos fun hpos => ?_
    have hone : (1 : ℚ) ≤ n.natAbs := by exact_mod_cast hpos
    have hlt : (n.natAbs : ℚ) < 2 ^ 64 := by
      rw [Int.abs_eq_natAbs] at hn
      exact_mod_cast hn
    rw [Nat.cast_one, div_one]
    exact ⟨le_trans (by norm_num) hone, hlt.trans (by norm_num)⟩
  rwa [signed_natAbs] at hrounds

theorem ofInt_near (n : ℤ) : |n - (ofInt n).value| ≤ 2 ^ (-24 : ℤ) * |(n : ℚ)| := by
  have hnear := ofRatio_near (n < 0) n.natAbs one_pos
  rw [signed_natAbs, Nat.cast_one, div_one, Nat.cast_natAbs, Int.cast_abs] at hnear
  exact hnear

/-- Whole numbers of 24 bits are kept. -/
theorem value_ofInt (hn : |n| < 2 ^ 24) : (ofInt n).value = n := by
  rcases eq_or_ne n 0 with rfl | hne
  · simp [ofInt, ofRatio, value_zero]
  · have hkept := value_ofRatio_of_representable (n < 0) (Int.natAbs_pos.2 hne) one_pos
    rw [signed_natAbs] at hkept
    exact hkept ⟨n, 0, hn, by simp⟩

/-! ## Quotients -/

theorem abs_value (x : Single) : |x.value| = x.significand * 2 ^ x.exponent := by
  rw [value, abs_signed, abs_of_nonneg (by positivity)]

/-- The quotient that is rounded is the exact one. -/
theorem ratio_divNat (x : Single) (den : ℕ) :
    ((x.significand <<< x.exponent.toNat : ℕ) / (den <<< (-x.exponent).toNat : ℕ) : ℚ) =
      |x.value| / den := by
  rw [abs_value, two_zpow, Nat.shiftLeft_eq, Nat.shiftLeft_eq]
  push_cast
  field_simp

theorem signed_abs_value (x : Single) : signed x.negative (|x.value| / den) = x.value / den := by
  rw [abs_value, value]
  cases x.negative
  · rfl
  · simp only [signed, if_true]
    ring

theorem roundsTo_divNat (hden : 0 < den) (hrange : x.value ≠ 0 →
    2 ^ (-100 : ℤ) ≤ |x.value| / den ∧ |x.value| / den < 2 ^ (100 : ℤ)) :
    RoundsTo (x.value / den) (x.divNat den).bits (x.divNat den).value := by
  have hden' : 0 < den <<< (-x.exponent).toNat := by simpa [Nat.shiftLeft_eq] using hden
  have hrounds := roundsTo_ofRatio x.negative (x.significand <<< x.exponent.toNat) hden'
  rw [ratio_divNat, signed_abs_value] at hrounds
  refine hrounds fun hpos => hrange ?_
  rw [← abs_pos, abs_value]
  have hsignificand : 0 < x.significand := by
    rw [Nat.shiftLeft_eq] at hpos
    exact Nat.pos_of_mul_pos_right hpos
  positivity

theorem divNat_near (x : Single) (hden : 0 < den) :
    |x.value / den - (x.divNat den).value| ≤ 2 ^ (-24 : ℤ) * (|x.value| / den) := by
  have hden' : 0 < den <<< (-x.exponent).toNat := by simpa [Nat.shiftLeft_eq] using hden
  have hnear := ofRatio_near x.negative (x.significand <<< x.exponent.toNat) hden'
  rwa [ratio_divNat, signed_abs_value] at hnear

end Single

namespace Elapsed

variable {start stop : UInt64}

theorem nanosBetween_swap (start stop : UInt64) :
    nanosBetween stop start = -nanosBetween start stop := by
  unfold nanosBetween
  omega

theorem nanosBetween_chain (start middle stop : UInt64) :
    nanosBetween start middle + nanosBetween middle stop = nanosBetween start stop := by
  unfold nanosBetween
  omega

theorem abs_nanosBetween_lt (start stop : UInt64) : |nanosBetween start stop| < 2 ^ 64 := by
  have hstart := start.toNat_lt
  have hstop := stop.toNat_lt
  rw [nanosBetween, abs_lt]
  omega

theorem millis_neg (nanos : Int) : millis (-nanos) = (millis nanos).neg := by
  rw [millis, Single.ofInt_neg, Single.divNat_neg _ (by decide)]
  rfl

/-- The difference of two 128-bit integers, held within their range. -/
def saturatingSub (a b : ℤ) : ℤ := max (-2 ^ 127) (min (a - b) (2 ^ 127 - 1))

theorem saturatingSub_readings (start stop : UInt64) :
    saturatingSub stop.toNat start.toNat = nanosBetween start stop := by
  have hstart := start.toNat_lt
  have hstop := stop.toNat_lt
  rw [saturatingSub, nanosBetween]
  omega

/-! ## Both roundings -/

/-- Two roundings, one after a division, each by one part in `δ` at most. -/
theorem abs_sub_le_of_roundings {a u v p δ : ℚ} (hp : 0 < p) (hδ : 0 ≤ δ)
    (hu : |a - u| ≤ δ * |a|) (hv : |u / p - v| ≤ δ * (|u| / p)) :
    |a / p - v| ≤ (2 * δ + δ ^ 2) * (|a| / p) := by
  have hgrown : |u| ≤ (1 + δ) * |a| := by
    calc |u| = |a - (a - u)| := by rw [sub_sub_cancel]
      _ ≤ |a| + |a - u| := abs_sub _ _
      _ ≤ (1 + δ) * |a| := by linarith
  calc |a / p - v| ≤ |a / p - u / p| + |u / p - v| := abs_sub_le _ _ _
    _ = |a - u| / p + |u / p - v| := by rw [← sub_div, abs_div, abs_of_pos hp]
    _ ≤ δ * |a| / p + δ * ((1 + δ) * |a| / p) := by
      have hscaled : δ * (|u| / p) ≤ δ * ((1 + δ) * |a| / p) := by gcongr
      have hfirst : |a - u| / p ≤ δ * |a| / p := by gcongr
      linarith
    _ = (2 * δ + δ ^ 2) * (|a| / p) := by ring

/-- What is off by less than half of itself has kept its sign. -/
theorem pos_iff_of_near {q v : ℚ} (h : |q - v| ≤ 1 / 2 * |q|) : 0 < v ↔ 0 < q := by
  obtain ⟨hlow, hhigh⟩ := abs_le.1 h
  rcases le_total 0 q with hq | hq
  · rw [abs_of_nonneg hq] at hlow hhigh
    constructor <;> intro hpos <;> linarith
  · rw [abs_of_nonpos hq] at hlow hhigh
    constructor <;> intro hpos <;> linarith

section

variable {n n' : ℤ}

theorem millis_near (n : ℤ) : |n / nanosPerMilli - (millis n).value| ≤
    (2 ^ (-23 : ℤ) + 2 ^ (-48 : ℤ)) * (|(n : ℚ)| / nanosPerMilli) := by
  have hboth := abs_sub_le_of_roundings (by norm_num [nanosPerMilli] : (0 : ℚ) < nanosPerMilli)
    (by norm_num) (Single.ofInt_near n) (Single.divNat_near (Single.ofInt n) (by decide))
  have hparts : (2 * 2 ^ (-24 : ℤ) + (2 ^ (-24 : ℤ)) ^ 2 : ℚ) = 2 ^ (-23 : ℤ) + 2 ^ (-48 : ℤ) := by
    norm_num
  rwa [hparts] at hboth

theorem millis_pos_iff (n : ℤ) : 0 < (millis n).value ↔ 0 < n := by
  have hpos : (0 : ℚ) < nanosPerMilli := by norm_num [nanosPerMilli]
  have hnear := millis_near n
  rw [← abs_of_pos hpos, ← abs_div, abs_of_pos hpos] at hnear
  have hhalf : (2 ^ (-23 : ℤ) + 2 ^ (-48 : ℤ) : ℚ) ≤ 1 / 2 := by norm_num
  rw [pos_iff_of_near (hnear.trans (by gcongr)), div_pos_iff_of_pos_right hpos, Int.cast_pos]

theorem millis_neg_iff (n : ℤ) : (millis n).value < 0 ↔ n < 0 := by
  have hpos := millis_pos_iff (-n)
  rwa [millis_neg, Single.value_neg, neg_pos, neg_pos] at hpos

theorem millis_eq_zero_iff (n : ℤ) : (millis n).value = 0 ↔ n = 0 := by
  have hpos := millis_pos_iff n
  have hneg := millis_neg_iff n
  constructor
  · intro hzero
    rw [hzero, iff_comm] at hpos hneg
    have hle : n ≤ 0 := not_lt.1 fun h => lt_irrefl _ (hpos.1 h)
    have hge : 0 ≤ n := not_lt.1 fun h => lt_irrefl _ (hneg.1 h)
    exact le_antisymm hle hge
  · rintro rfl
    exact le_antisymm (not_lt.1 fun h => lt_irrefl _ (hpos.1 h))
      (not_lt.1 fun h => lt_irrefl _ (hneg.1 h))

/-- The quotient is zero or in the normal range. -/
theorem roundsTo_millis (hn : |n| < 2 ^ 64) :
    Single.RoundsTo ((Single.ofInt n).value / nanosPerMilli) (millis n).bits (millis n).value := by
  have hnear := Single.ofInt_near n
  have hlow := abs_sub_abs_le_abs_sub (n : ℚ) (Single.ofInt n).value
  have hhigh := abs_sub_abs_le_abs_sub (Single.ofInt n).value (n : ℚ)
  rw [abs_sub_comm] at hhigh
  refine Single.roundsTo_divNat (by decide) fun hne => ?_
  have hone : (1 : ℚ) ≤ |(n : ℚ)| := by
    rcases eq_or_ne n 0 with rfl | hzero
    · exact absurd (by simpa using hnear) hne
    · exact_mod_cast Int.one_le_abs hzero
  have hlt : |(n : ℚ)| < 2 ^ 64 := by exact_mod_cast hn
  norm_num [nanosPerMilli] at *
  constructor <;> linarith

theorem millis_mono (hn : |n| < 2 ^ 64) (hn' : |n'| < 2 ^ 64) (hle : n ≤ n') :
    (millis n).value ≤ (millis n').value := by
  have hfirst := (Single.roundsTo_ofInt hn).mono (Single.roundsTo_ofInt hn') (by exact_mod_cast hle)
  refine (roundsTo_millis hn).mono (roundsTo_millis hn') ?_
  gcongr

end

/-- The time from one reading to another in milliseconds. -/
def millisBetween (start stop : UInt64) : Single := millis (nanosBetween start stop)

/-- What the conversion of the time from `start` to `stop` to milliseconds comes to. -/
structure Faithful (start stop : UInt64) : Prop where
  /-- The difference of the readings is exact, and the divisor is. -/
  exact : saturatingSub stop.toNat start.toNat = nanosBetween start stop ∧
    (Single.ofInt nanosPerMilli).value = nanosPerMilli
  /-- The difference is rounded to the nearest finite number, a tie to even, -/
  rounded : Single.RoundsTo (nanosBetween start stop) (Single.ofInt (nanosBetween start stop)).bits
    (Single.ofInt (nanosBetween start stop)).value
  /-- and so is its quotient. -/
  divided : Single.RoundsTo ((Single.ofInt (nanosBetween start stop)).value / nanosPerMilli)
    (millisBetween start stop).bits (millisBetween start stop).value
  /-- There is nothing else to round to. -/
  determined : ∀ bits bits' u v, Single.RoundsTo (nanosBetween start stop) bits u →
    Single.RoundsTo (u / nanosPerMilli) bits' v → v = (millisBetween start stop).value
  /-- The result is zero for equal readings only, and then it is no negative zero. -/
  zero : ((millisBetween start stop).value = 0 ↔ nanosBetween start stop = 0) ∧
    (nanosBetween start stop = 0 → (millisBetween start stop).bits = 0)
  positive : 0 < (millisBetween start stop).value ↔ 0 < nanosBetween start stop
  negative : (millisBetween start stop).value < 0 ↔ nanosBetween start stop < 0
  swapped : (millisBetween stop start).value = -(millisBetween start stop).value
  ordered : ∀ start' stop', nanosBetween start stop ≤ nanosBetween start' stop' →
    (millisBetween start stop).value ≤ (millisBetween start' stop').value
  near : |(millisBetween start stop).value - nanosBetween start stop / nanosPerMilli| ≤
    (2 ^ (-23 : ℤ) + 2 ^ (-48 : ℤ)) * (|(nanosBetween start stop : ℚ)| / nanosPerMilli)

/-- Times between readings are converted to milliseconds faithfully. -/
theorem millis_faithful (start stop : UInt64) : Faithful start stop := by
  have hsmall := abs_nanosBetween_lt start stop
  have hrounded := Single.roundsTo_ofInt hsmall
  have hdivided := roundsTo_millis hsmall
  have hswapped : (millisBetween stop start).value = -(millisBetween start stop).value := by
    rw [millisBetween, nanosBetween_swap, millis_neg, Single.value_neg]
    rfl
  refine ⟨⟨saturatingSub_readings start stop, Single.value_ofInt (by decide)⟩, hrounded, hdivided,
    ?_, ⟨millis_eq_zero_iff _, ?_⟩, millis_pos_iff _, millis_neg_iff _, hswapped, ?_, ?_⟩
  · intro bits bits' u v hu hv
    obtain rfl := hu.unique hrounded
    exact hv.unique hdivided
  · intro hzero
    rw [millisBetween, hzero]
    decide
  · exact fun start' stop' => millis_mono hsmall (abs_nanosBetween_lt start' stop')
  · rw [abs_sub_comm]
    exact millis_near _

end Elapsed

end SyncPoint
