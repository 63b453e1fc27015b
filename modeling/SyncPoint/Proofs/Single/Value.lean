import Mathlib.Algebra.Order.Field.Power
import Mathlib.Data.Rat.Cast.Order
import Mathlib.Tactic.FieldSimp
import Mathlib.Tactic.Linarith
import Mathlib.Tactic.NormNum
import Mathlib.Tactic.Positivity
import Mathlib.Tactic.Ring
import SyncPoint.Single

/-!
# The value of a number in single precision

A quotient is rounded in units of the power of two that gives it a whole part of 24 bits
(`Single.exponentOf_bounds`).  What it is rounded to is as near to it as any number with 24
significant bits, and has an even significand if another one is just as near
(`Single.ofRatio_nearest`).
-/

namespace SyncPoint.Single

/-- A magnitude with a sign. -/
def signed (negative : Bool) (x : ℚ) : ℚ := if negative then -x else x

/-- The rational number that is meant. -/
def value (x : Single) : ℚ := signed x.negative (x.significand * 2 ^ x.exponent)

/-- A number of at most 24 significant bits, whatever its exponent. -/
def Representable (y : ℚ) : Prop := ∃ k e : ℤ, |k| < 2 ^ 24 ∧ y = k * 2 ^ e

/-- The significand has exactly 24 bits. -/
structure Normal (x : Single) : Prop where
  long : 2 ^ 23 ≤ x.significand
  short : x.significand < 2 ^ 24

/-- No number of 24 significant bits is nearer to `x` than `v`, and if another one is as near,
`even` holds. -/
structure Nearest (x v : ℚ) (even : Prop) : Prop where
  le : ∀ y, Representable y → |x - v| ≤ |x - y|
  tie : ∀ y, Representable y → |x - y| = |x - v| → y ≠ v → even

variable {num den : ℕ} {e : ℤ}

theorem two_zpow (e : ℤ) : (2 : ℚ) ^ e = 2 ^ e.toNat / 2 ^ (-e).toNat := by
  rcases Int.eq_nat_or_neg e with ⟨n, rfl | rfl⟩ <;> simp

theorem two_zpow_add (e n : ℤ) : (2 : ℚ) ^ (e + n) = 2 ^ n * 2 ^ e := by
  rw [zpow_add₀ two_ne_zero, mul_comm]

/-! ## Signs -/

@[simp] theorem signed_zero (negative : Bool) : signed negative 0 = 0 := by
  cases negative <;> simp [signed]

theorem signed_signed (negative : Bool) (x : ℚ) : signed negative (signed negative x) = x := by
  cases negative <;> simp [signed]

theorem signed_not (negative : Bool) (x : ℚ) : signed (!negative) x = -signed negative x := by
  cases negative <;> simp [signed]

theorem abs_signed (negative : Bool) (x : ℚ) : |signed negative x| = |x| := by
  cases negative <;> simp [signed]

theorem signed_sub (negative : Bool) (x y : ℚ) :
    signed negative x - signed negative y = signed negative (x - y) := by
  cases negative
  · rfl
  · simp only [signed, if_true]
    ring

theorem Representable.signed {y : ℚ} (hy : Representable y) (negative : Bool) :
    Representable (signed negative y) := by
  obtain ⟨k, e, hk, rfl⟩ := hy
  cases negative with
  | false => exact ⟨k, e, hk, rfl⟩
  | true => exact ⟨-k, e, by rwa [abs_neg], by simp [Single.signed]⟩

/-! ## Whole numbers -/

/-- Whatever is within a half of a number is nearest to it among whole numbers. -/
theorem abs_sub_le_of_half {t : ℚ} {r : ℤ} (hr : |t - r| ≤ 1 / 2) (k : ℤ) :
    |t - r| ≤ |t - k| ∧ (|t - k| = |t - r| → k ≠ r → |t - r| = 1 / 2) := by
  by_cases hk : k = r
  · subst k
    exact ⟨le_rfl, fun _ hne => absurd rfl hne⟩
  · have hone : (1 : ℚ) ≤ |(r : ℚ) - k| := by
      exact_mod_cast Int.one_le_abs (sub_ne_zero.2 (Ne.symm hk))
    have htriangle : |(r : ℚ) - k| ≤ |t - r| + |t - k| := by
      rw [abs_sub_comm t r]
      simpa using abs_add_le ((r : ℚ) - t) (t - k)
    exact ⟨by linarith, fun heq _ => by linarith⟩

/-- A whole number is rounded up or down, by half the divisor at most, and from the middle to the
even one. -/
theorem roundDiv_spec (num : ℕ) (hden : 0 < den) :
    2 * num ≤ 2 * (roundDiv num den * den) + den ∧ 2 * (roundDiv num den * den) ≤ 2 * num + den ∧
      (2 * num = 2 * (roundDiv num den * den) + den ∨ 2 * (roundDiv num den * den) = 2 * num + den →
        roundDiv num den % 2 = 0) := by
  have hsplit := Nat.div_add_mod' num den
  have hrest := Nat.mod_lt num hden
  simp only [roundDiv]
  split
  · omega
  · rw [Nat.add_mul]
    omega

theorem abs_sub_roundDiv (num : ℕ) (hden : 0 < den) :
    |(num / den : ℚ) - (roundDiv num den : ℤ)| ≤ 1 / 2 ∧
      (|(num / den : ℚ) - (roundDiv num den : ℤ)| = 1 / 2 → roundDiv num den % 2 = 0) := by
  obtain ⟨hup, hdown, htie⟩ := roundDiv_spec num hden
  generalize roundDiv num den = r at hup hdown htie ⊢
  have hpos : (0 : ℚ) < den := by exact_mod_cast hden
  have hdiff : (num / den : ℚ) - (r : ℤ) = (num - r * den) / den := by
    rw [sub_div, mul_div_cancel_right₀ _ hpos.ne']
    rfl
  have hup' : (2 * num : ℚ) ≤ 2 * (r * den) + den := by exact_mod_cast hup
  have hdown' : (2 * (r * den) : ℚ) ≤ 2 * num + den := by exact_mod_cast hdown
  rw [hdiff, abs_div, abs_of_pos hpos]
  constructor
  · rw [div_le_iff₀ hpos, abs_le]
    constructor <;> linarith
  · intro hhalf
    rw [div_eq_iff hpos.ne'] at hhalf
    apply htie
    rcases (abs_eq (by positivity)).1 hhalf with hmiddle | hmiddle
    · left
      have hnum : (2 * num : ℚ) = 2 * (r * den) + den := by linarith
      exact_mod_cast hnum
    · right
      have hnum : (2 * (r * den) : ℚ) = 2 * num + den := by linarith
      exact_mod_cast hnum

/-! ## The exponent -/

theorem ratio_inUnits (num den : ℕ) (e : ℤ) :
    ((inUnits num den e).1 / (inUnits num den e).2 : ℚ) = num / den / 2 ^ e := by
  simp only [inUnits, Nat.shiftLeft_eq, two_zpow e]
  push_cast
  field_simp

theorem inUnits_pos (num : ℕ) (hden : 0 < den) (e : ℤ) : 0 < (inUnits num den e).2 := by
  simpa [inUnits, Nat.shiftLeft_eq] using hden

/-- A number lies between two powers of two, as its bit length says. -/
theorem log2_bounds {n : ℕ} (hn : 0 < n) :
    (2 : ℚ) ^ (n.log2 : ℤ) ≤ n ∧ (n : ℚ) < 2 ^ (n.log2 + 1 : ℤ) := by
  constructor
  · exact_mod_cast Nat.log2_self_le hn.ne'
  · exact_mod_cast Nat.lt_log2_self (n := n)

/-- The bit lengths bound the quotient. -/
theorem ratio_bounds (hnum : 0 < num) (hden : 0 < den) :
    (2 : ℚ) ^ ((num.log2 : ℤ) - den.log2 - 1) < num / den ∧
      (num / den : ℚ) < 2 ^ ((num.log2 : ℤ) - den.log2 + 1) := by
  obtain ⟨hnum₁, hnum₂⟩ := log2_bounds hnum
  obtain ⟨hden₁, hden₂⟩ := log2_bounds hden
  have hpos : (0 : ℚ) < den := by exact_mod_cast hden
  constructor
  · rw [lt_div_iff₀ hpos]
    calc (2 : ℚ) ^ ((num.log2 : ℤ) - den.log2 - 1) * den
        < 2 ^ ((num.log2 : ℤ) - den.log2 - 1) * 2 ^ (den.log2 + 1 : ℤ) := by gcongr
      _ = 2 ^ (num.log2 : ℤ) := by rw [← zpow_add₀ two_ne_zero]; congr 1; ring
      _ ≤ num := hnum₁
  · rw [div_lt_iff₀ hpos]
    calc (num : ℚ) < 2 ^ (num.log2 + 1 : ℤ) := hnum₂
      _ = 2 ^ ((num.log2 : ℤ) - den.log2 + 1) * 2 ^ (den.log2 : ℤ) := by
        rw [← zpow_add₀ two_ne_zero]; congr 1; ring
      _ ≤ 2 ^ ((num.log2 : ℤ) - den.log2 + 1) * den := by gcongr

theorem inUnits_lt_iff (num : ℕ) (hden : 0 < den) (e : ℤ) :
    (inUnits num den e).1 < (inUnits num den e).2 <<< 23 ↔ (num / den : ℚ) < 2 ^ (e + 23) := by
  have hpos : (0 : ℚ) < (inUnits num den e).2 := by exact_mod_cast inUnits_pos num hden e
  have hunit : (0 : ℚ) < 2 ^ e := by positivity
  rw [two_zpow_add e 23, ← div_lt_iff₀ hunit, ← ratio_inUnits, div_lt_iff₀ hpos,
    Nat.shiftLeft_eq, mul_comm]
  exact_mod_cast Iff.rfl

/-- In units of its power of two, the quotient has a whole part of 24 bits. -/
theorem exponentOf_bounds (hnum : 0 < num) (hden : 0 < den) :
    (2 : ℚ) ^ (exponentOf num den + 23) ≤ num / den ∧
      (num / den : ℚ) < 2 ^ (exponentOf num den + 24) := by
  obtain ⟨hlow, hhigh⟩ := ratio_bounds hnum hden
  obtain ⟨guess, hguess⟩ : ∃ guess : ℤ, guess = (num.log2 : ℤ) - den.log2 - 23 := ⟨_, rfl⟩
  have hexponent : exponentOf num den =
      if (inUnits num den guess).1 < (inUnits num den guess).2 <<< 23 then guess - 1
      else guess := by
    rw [hguess]
    rfl
  rw [hexponent]
  split
  next hshort =>
    rw [inUnits_lt_iff num hden] at hshort
    have hlow' : guess - 1 + 23 = (num.log2 : ℤ) - den.log2 - 1 := by omega
    have hhigh' : guess - 1 + 24 = guess + 23 := by ring
    rw [hlow', hhigh']
    exact ⟨hlow.le, hshort⟩
  next hlong =>
    rw [inUnits_lt_iff num hden, not_lt] at hlong
    have hhigh' : guess + 24 = (num.log2 : ℤ) - den.log2 + 1 := by omega
    rw [hhigh']
    exact ⟨hlong, hhigh⟩

/-! ## Rounded quotients -/

/-- The whole number of units that a quotient is rounded to. -/
def units (num den : ℕ) : ℕ :=
  let scaled := inUnits num den (exponentOf num den)
  roundDiv scaled.1 scaled.2

theorem abs_sub_units (num : ℕ) (hden : 0 < den) :
    |(num / den / 2 ^ exponentOf num den : ℚ) - (units num den : ℤ)| ≤ 1 / 2 ∧
    (|(num / den / 2 ^ exponentOf num den : ℚ) - (units num den : ℤ)| = 1 / 2 →
      units num den % 2 = 0) := by
  rw [← ratio_inUnits]
  exact abs_sub_roundDiv _ (inUnits_pos num hden _)

section

variable (hnum : 0 < num) (hden : 0 < den)
include hnum hden

theorem ratio_units_bounds : (2 ^ 23 : ℚ) ≤ num / den / 2 ^ exponentOf num den ∧
    (num / den / 2 ^ exponentOf num den : ℚ) < 2 ^ 24 := by
  obtain ⟨hlow, hhigh⟩ := exponentOf_bounds hnum hden
  have hunit : (0 : ℚ) < 2 ^ exponentOf num den := by positivity
  rw [two_zpow_add] at hlow hhigh
  rw [le_div_iff₀ hunit, div_lt_iff₀ hunit]
  exact ⟨hlow, hhigh⟩

theorem units_bounds : 2 ^ 23 ≤ units num den ∧ units num den ≤ 2 ^ 24 := by
  obtain ⟨hlow, hhigh⟩ := ratio_units_bounds hnum hden
  obtain ⟨hunder, hover⟩ := abs_le.1 (abs_sub_units num hden).1
  generalize units num den = r at hunder hover ⊢
  have hlow' : (2 ^ 23 : ℚ) < (r : ℤ) + 1 := by linarith
  have hhigh' : ((r : ℤ) : ℚ) < 2 ^ 24 + 1 := by linarith
  have hwhole : (2 ^ 23 : ℤ) < r + 1 ∧ (r : ℤ) < 2 ^ 24 + 1 := by
    exact_mod_cast And.intro hlow' hhigh'
  omega

end

/-- A number of few significant bits is a whole number of units, or less than the smallest quotient
that has them. -/
theorem Representable.cases {y : ℚ} (hy : Representable y) (e : ℤ) :
    (∃ j : ℤ, y = j * 2 ^ e) ∨ y < 2 ^ 23 * 2 ^ e := by
  obtain ⟨k, f, hk, rfl⟩ := hy
  rcases le_or_gt e f with hle | hlt
  · left
    obtain ⟨n, rfl⟩ := Int.le.dest hle
    refine ⟨k * 2 ^ n, ?_⟩
    rw [two_zpow_add e n, zpow_natCast]
    push_cast
    ring
  · right
    have hk' : (k : ℚ) < 2 ^ 24 := by exact_mod_cast (abs_lt.1 hk).2
    calc (k : ℚ) * 2 ^ f < 2 ^ 24 * 2 ^ f := by gcongr
      _ ≤ 2 ^ 24 * 2 ^ (e - 1) := by
        gcongr
        · exact one_le_two
        · omega
      _ = 2 ^ 23 * 2 ^ e := by
        rw [zpow_sub_one₀ two_ne_zero]
        ring

theorem abs_sub_mul {x unit : ℚ} (hunit : 0 < unit) (r : ℚ) :
    |x - r * unit| = |x / unit - r| * unit := by
  rw [← abs_of_pos hunit, ← abs_mul, abs_of_pos hunit, sub_mul, div_mul_cancel₀ _ hunit.ne']

/-- A number with less than 24 significant bits left of the units is not as near as the quotient's
leading bit alone. -/
theorem abs_sub_lt_of_lt {x y unit : ℚ} {r : ℤ} (hunit : 0 < unit) (hhalf : |x / unit - r| ≤ 1 / 2)
    (hlow : 2 ^ 23 ≤ x / unit) (hsmall : y < 2 ^ 23 * unit) : |x - r * unit| < |x - y| := by
  have hlow' := (le_div_iff₀ hunit).1 hlow
  calc |x - r * unit|
      = |x / unit - r| * unit := abs_sub_mul hunit _
    _ ≤ |x / unit - (2 ^ 23 : ℤ)| * unit :=
      mul_le_mul_of_nonneg_right (abs_sub_le_of_half hhalf _).1 hunit.le
    _ = |x - 2 ^ 23 * unit| := by
      rw [abs_sub_mul hunit]
      push_cast
      rfl
    _ = x - 2 ^ 23 * unit := abs_of_nonneg (sub_nonneg.2 hlow')
    _ < x - y := by linarith
    _ ≤ |x - y| := le_abs_self _

/-- The units that a quotient is rounded to come as near to it as any number of 24 significant bits,
and are even in number if another one comes as near. -/
theorem units_nearest (hnum : 0 < num) (hden : 0 < den) :
    Nearest (num / den) (units num den * 2 ^ exponentOf num den) (units num den % 2 = 0) := by
  obtain ⟨hhalf, heven⟩ := abs_sub_units num hden
  have hlow := (ratio_units_bounds hnum hden).1
  have hunit : (0 : ℚ) < 2 ^ exponentOf num den := by positivity
  refine ⟨fun y hy => ?_, fun y hy htie hne => ?_⟩
  · rcases hy.cases (exponentOf num den) with ⟨j, rfl⟩ | hsmall
    · rw [abs_sub_mul hunit, abs_sub_mul hunit]
      exact mul_le_mul_of_nonneg_right (abs_sub_le_of_half hhalf j).1 hunit.le
    · exact (abs_sub_lt_of_lt hunit hhalf hlow hsmall).le
  · rcases hy.cases (exponentOf num den) with ⟨j, rfl⟩ | hsmall
    · rw [abs_sub_mul hunit, abs_sub_mul hunit] at htie
      refine heven ((abs_sub_le_of_half hhalf j).2 (mul_right_cancel₀ hunit.ne' htie) ?_)
      rintro rfl
      exact hne rfl
    · exact absurd htie (abs_sub_lt_of_lt hunit hhalf hlow hsmall).ne'

/-- A quotient is rounded by less than one part in `2 ^ 24`. -/
theorem units_near (hnum : 0 < num) (hden : 0 < den) :
    |(num / den : ℚ) - units num den * 2 ^ exponentOf num den| ≤ 2 ^ (-24 : ℤ) * (num / den) := by
  have hhalf := (abs_sub_units num hden).1
  have hlow := (exponentOf_bounds hnum hden).1
  have hunit : (0 : ℚ) < 2 ^ exponentOf num den := by positivity
  rw [two_zpow_add] at hlow
  rw [abs_sub_mul hunit]
  calc |(num / den / 2 ^ exponentOf num den : ℚ) - (units num den : ℤ)| * 2 ^ exponentOf num den
      ≤ 1 / 2 * 2 ^ exponentOf num den := mul_le_mul_of_nonneg_right hhalf hunit.le
    _ = 2 ^ (-24 : ℤ) * (2 ^ (23 : ℤ) * 2 ^ exponentOf num den) := by
      rw [← mul_assoc]
      norm_num
    _ ≤ 2 ^ (-24 : ℤ) * (num / den) := mul_le_mul_of_nonneg_left hlow (by positivity)

/-! ## What becomes of the units -/

/-- The number is so many units with a sign, written with their exponent or the next one. -/
structure Writes (x : Single) (negative : Bool) (r : ℕ) (e : ℤ) : Prop where
  normal : x.Normal
  exponent : x.exponent = e ∨ x.exponent = e + 1
  even : r % 2 = 0 → x.significand % 2 = 0
  value : x.value = signed negative (r * 2 ^ e)

theorem ofRatio_of_pos (negative : Bool) (hnum : 0 < num) (den : ℕ) :
    ofRatio negative num den =
      if units num den = 2 ^ 24 then ⟨negative, 2 ^ 23, exponentOf num den + 1⟩
      else ⟨negative, units num den, exponentOf num den⟩ := by
  rw [ofRatio, if_neg hnum.ne']
  rfl

section

variable (negative : Bool) (hnum : 0 < num) (hden : 0 < den)
include hnum hden

theorem ofRatio_writes :
    (ofRatio negative num den).Writes negative (units num den) (exponentOf num den) := by
  obtain ⟨hlow, hhigh⟩ := units_bounds hnum hden
  rw [ofRatio_of_pos negative hnum]
  generalize units num den = r at *
  generalize exponentOf num den = e
  split
  next hcarry =>
    refine ⟨⟨le_rfl, by norm_num⟩, .inr rfl, fun _ => by norm_num, congrArg (signed negative) ?_⟩
    rw [hcarry, zpow_add_one₀ two_ne_zero]
    push_cast
    ring
  next hfits => exact ⟨⟨hlow, lt_of_le_of_ne hhigh hfits⟩, .inl rfl, id, rfl⟩

/-- A quotient is rounded to the nearest number, a tie to the one with the even significand. -/
theorem ofRatio_nearest :
    Nearest (signed negative (num / den)) (ofRatio negative num den).value
      ((ofRatio negative num den).significand % 2 = 0) := by
  have hwrites := ofRatio_writes negative hnum hden
  have hnearest := units_nearest hnum hden
  have hdistance : ∀ x y, |signed negative x - y| = |x - signed negative y| := by
    intro x y
    rw [← abs_signed negative (x - _), ← signed_sub, signed_signed]
  rw [hwrites.value]
  refine ⟨fun y hy => ?_, fun y hy htie hne => hwrites.even ?_⟩
  · rw [hdistance, hdistance, signed_signed]
    exact hnearest.le _ (hy.signed negative)
  · rw [hdistance, hdistance, signed_signed] at htie
    refine hnearest.tie _ (hy.signed negative) htie fun hsame => hne ?_
    rw [← hsame, signed_signed]

end

theorem value_zero : zero.value = 0 := by
  simp [value, zero]

/-- A quotient is rounded by less than one part in `2 ^ 24`, zero not at all. -/
theorem ofRatio_near (negative : Bool) (num : ℕ) (hden : 0 < den) :
    |signed negative (num / den) - (ofRatio negative num den).value| ≤
      2 ^ (-24 : ℤ) * (num / den) := by
  rcases Nat.eq_zero_or_pos num with rfl | hnum
  · simp [ofRatio, value_zero]
  · rw [(ofRatio_writes negative hnum hden).value, signed_sub, abs_signed]
    exact units_near hnum hden

/-- Numbers with 24 significant bits are kept. -/
theorem value_ofRatio_of_representable (negative : Bool) (hnum : 0 < num) (hden : 0 < den)
    (h : Representable (signed negative (num / den))) :
    (ofRatio negative num den).value = signed negative (num / den) := by
  have hnearest := (ofRatio_nearest negative hnum hden).le _ h
  rw [sub_self, abs_zero, abs_nonpos_iff, sub_eq_zero] at hnearest
  exact hnearest.symm

/-! ## The other sign -/

/-- The number with the other sign; zero has none. -/
def neg (x : Single) : Single :=
  { x with negative := decide (x.significand ≠ 0) && !x.negative }

theorem value_neg (x : Single) : x.neg.value = -x.value := by
  by_cases hzero : x.significand = 0
  · simp [neg, value, hzero]
  · rw [value, value, ← signed_not]
    simp [neg, hzero]

/-- Only zero has the significand zero. -/
theorem significand_ofRatio_ne_zero (negative : Bool) (hnum : num ≠ 0) (hden : den ≠ 0) :
    (ofRatio negative num den).significand ≠ 0 := by
  have hlong := (ofRatio_writes negative (Nat.pos_of_ne_zero hnum)
    (Nat.pos_of_ne_zero hden)).normal.long
  omega

theorem ofRatio_not (negative : Bool) (hden : den ≠ 0) :
    ofRatio (!negative) num den = (ofRatio negative num den).neg := by
  by_cases hnum : num = 0
  · simp [ofRatio, hnum, neg, zero]
  · have hsignificand := significand_ofRatio_ne_zero negative hnum hden
    rw [neg, decide_eq_true hsignificand]
    simp only [ofRatio, if_neg hnum]
    split <;> simp

theorem ofInt_neg (n : Int) : ofInt (-n) = (ofInt n).neg := by
  by_cases hn : n = 0
  · subst hn
    decide
  · have hsign : decide (-n < 0) = !decide (n < 0) := by
      by_cases hlt : n < 0 <;> simp [hlt] <;> omega
    rw [ofInt, hsign, Int.natAbs_neg, ofRatio_not _ (by decide)]
    rfl

theorem divNat_neg (x : Single) (hden : den ≠ 0) : x.neg.divNat den = (x.divNat den).neg := by
  have hshifted : den <<< (-x.exponent).toNat ≠ 0 := by
    simp [Nat.shiftLeft_eq, hden]
  by_cases hzero : x.significand = 0
  · simp [divNat, neg, hzero, ofRatio, zero]
  · have hsign : x.neg.negative = !x.negative := by simp [neg, hzero]
    rw [divNat, hsign]
    exact ofRatio_not x.negative hshifted

end SyncPoint.Single
