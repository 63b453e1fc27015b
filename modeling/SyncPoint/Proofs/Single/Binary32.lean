import Mathlib.Order.Monotone.Basic
import SyncPoint.Proofs.Single.Value

/-!
# Rounding to `binary32`

`decode` reads the interchange encoding of IEEE 754's `binary32`, and `RoundsTo` says what it is to
round to the nearest finite number, a tie to the one with an even last bit.  Rounding has one value
(`RoundsTo.unique`) and keeps the order (`RoundsTo.mono`), whatever computes it, and rounded
quotients in the normal range are rounded so (`roundsTo_ofRatio`).
-/

namespace SyncPoint.Single

/-- The magnitude with these exponent and fraction bits. -/
def magnitude (n : ℕ) : ℚ :=
  if n / 2 ^ 23 = 0 then n * 2 ^ (-149 : ℤ)
  else (2 ^ 23 + n % 2 ^ 23 : ℕ) * 2 ^ ((n / 2 ^ 23 : ℕ) - 150 : ℤ)

/-- The number that is encoded. Infinities and what is not a number have all exponent bits set. -/
def decode (bits : UInt32) : Option ℚ :=
  if bits.toNat % 2 ^ 31 / 2 ^ 23 = 255 then none
  else some (signed (2 ^ 31 ≤ bits.toNat) (magnitude (bits.toNat % 2 ^ 31)))

/-- The finite number `v`, encoded by `bits`, is the one nearest to `x`, and if another one is as
near, the last bit is zero. Numbers beyond all finite ones are not to be rounded so. -/
structure RoundsTo (x : ℚ) (bits : UInt32) (v : ℚ) : Prop where
  decoded : decode bits = some v
  nearest : ∀ other w, decode other = some w → |x - v| ≤ |x - w|
  even : ∀ other w, decode other = some w → |x - w| = |x - v| → w ≠ v → bits.toNat % 2 = 0

/-! ## Finite numbers in their order -/

/-- The finite numbers in order, counted from zero. -/
def grid (k : ℤ) : ℚ := signed (k < 0) (magnitude k.natAbs)

theorem magnitude_of_normal {n : ℕ} (hn : n / 2 ^ 23 ≠ 0) :
    magnitude n = (2 ^ 23 + n % 2 ^ 23 : ℕ) * 2 ^ ((n / 2 ^ 23 : ℕ) - 150 : ℤ) :=
  if_neg hn

/-- Subnormal numbers are written with the least exponent of normal ones. -/
theorem magnitude_of_lt {n : ℕ} (hn : n < 2 ^ 24) : magnitude n = n * 2 ^ (-149 : ℤ) := by
  by_cases hsubnormal : n / 2 ^ 23 = 0
  · exact if_pos hsubnormal
  · have hfields : n / 2 ^ 23 = 1 ∧ 2 ^ 23 + n % 2 ^ 23 = n := by omega
    rw [magnitude_of_normal hsubnormal, hfields.1, hfields.2]
    rfl

theorem magnitude_lt_succ (n : ℕ) : magnitude n < magnitude (n + 1) := by
  by_cases hshort : n + 1 < 2 ^ 24
  · have hlt : (n : ℚ) < (n + 1 : ℕ) := by exact_mod_cast n.lt_succ_self
    rw [magnitude_of_lt (by omega), magnitude_of_lt hshort]
    exact mul_lt_mul_of_pos_right hlt (by positivity)
  rw [magnitude_of_normal (by omega), magnitude_of_normal (by omega)]
  by_cases hcarry : (n + 1) % 2 ^ 23 = 0
  · -- the exponent goes up by one, and the fraction starts again from zero
    have hnext : (n + 1) / 2 ^ 23 = n / 2 ^ 23 + 1 := by omega
    have hexponent : ((n / 2 ^ 23 + 1 : ℕ) - 150 : ℤ) = ((n / 2 ^ 23 : ℕ) - 150 : ℤ) + 1 := by
      push_cast
      ring
    have hlt : ((2 ^ 23 + n % 2 ^ 23 : ℕ) : ℚ) < (2 ^ 23 + 0 : ℕ) * 2 := by
      exact_mod_cast (by omega : 2 ^ 23 + n % 2 ^ 23 < (2 ^ 23 + 0) * 2)
    rw [hnext, hcarry, hexponent, zpow_add_one₀ two_ne_zero, mul_comm (_ ^ _) (2 : ℚ), ← mul_assoc]
    exact mul_lt_mul_of_pos_right hlt (by positivity)
  · have hnext : (n + 1) / 2 ^ 23 = n / 2 ^ 23 := by omega
    have hlt : ((2 ^ 23 + n % 2 ^ 23 : ℕ) : ℚ) < (2 ^ 23 + (n + 1) % 2 ^ 23 : ℕ) := by
      exact_mod_cast (by omega : 2 ^ 23 + n % 2 ^ 23 < 2 ^ 23 + (n + 1) % 2 ^ 23)
    rw [hnext]
    exact mul_lt_mul_of_pos_right hlt (by positivity)

theorem magnitude_zero : magnitude 0 = 0 := by
  simp [magnitude]

theorem grid_natCast (n : ℕ) : grid n = magnitude n := by
  simp [grid, signed]

theorem grid_neg_natCast (n : ℕ) : grid (-n) = -magnitude n := by
  rcases Nat.eq_zero_or_pos n with rfl | hn
  · simp [grid, signed, magnitude_zero]
  · simp [grid, signed, hn]

theorem grid_lt_succ (k : ℤ) : grid k < grid (k + 1) := by
  rcases k with n | n
  · have hlt := magnitude_lt_succ n
    rw [← grid_natCast, ← grid_natCast] at hlt
    exact hlt
  · have hlt := neg_lt_neg (magnitude_lt_succ n)
    rw [← grid_neg_natCast, ← grid_neg_natCast] at hlt
    have hnext : Int.negSucc n + 1 = -n := by omega
    rw [hnext]
    exact hlt

theorem grid_lt_iff {k k' : ℤ} : grid k < grid k' ↔ k < k' :=
  (strictMono_int_of_lt_succ grid_lt_succ).lt_iff_lt

/-- A number that is encoded has its place in the order, an even one if its last bit is zero. -/
theorem grid_of_decode {bits : UInt32} {v : ℚ} (h : decode bits = some v) :
    ∃ k : ℤ, k.natAbs < 255 * 2 ^ 23 ∧ v = grid k ∧ (bits.toNat % 2 = 0 ↔ k % 2 = 0) := by
  have hbits := bits.toNat_lt
  unfold decode at h
  split at h
  next => cases h
  next hfinite =>
    cases h
    by_cases hnegative : 2 ^ 31 ≤ bits.toNat
    · refine ⟨-(bits.toNat % 2 ^ 31 : ℕ), by omega, ?_, by omega⟩
      rw [grid_neg_natCast, decide_eq_true hnegative]
      rfl
    · refine ⟨(bits.toNat % 2 ^ 31 : ℕ), by omega, ?_, by omega⟩
      rw [grid_natCast, decide_eq_false hnegative]
      rfl

theorem decode_of_toNat {bits : UInt32} {negative : Bool} {n : ℕ} (hn : n < 255 * 2 ^ 23)
    (hbits : bits.toNat = (if negative then 2 ^ 31 else 0) + n) :
    decode bits = some (signed negative (magnitude n)) := by
  have hmagnitude : bits.toNat % 2 ^ 31 = n := by
    cases negative <;> simp at hbits <;> omega
  have hnegative : decide (2 ^ 31 ≤ bits.toNat) = negative := by
    cases negative <;> simp at hbits ⊢ <;> omega
  rw [decode, hmagnitude, hnegative, if_neg (by omega)]

/-- Two and a half, minus one, and an infinity. -/
example : decode 0x40200000 = some (5 / 2) ∧ decode 0xBF800000 = some (-1) ∧
    decode 0x7F800000 = none := by decide +kernel

theorem exists_decode_grid {k : ℤ} (hk : k.natAbs < 255 * 2 ^ 23) :
    ∃ bits, decode bits = some (grid k) := by
  have hsmall : (if decide (k < 0) then 2 ^ 31 else 0) + k.natAbs < UInt32.size := by
    rw [UInt32.size]
    split <;> omega
  exact ⟨_, decode_of_toNat hk (UInt32.toNat_ofNat_of_lt' hsmall)⟩

/-! ## Rounding -/

section

variable {x x' v v' : ℚ} {bits bits' : UInt32}

/-- Whoever is nearer to the smaller one of two numbers is in the lower half. -/
theorem two_mul_le_of_abs_le {a b : ℚ} (hab : a < b) (h : |x - a| ≤ |x - b|) : 2 * x ≤ a + b := by
  have hsq := sq_le_sq.2 h
  nlinarith

theorem le_two_mul_of_abs_le {a b : ℚ} (hab : a < b) (h : |x - b| ≤ |x - a|) : a + b ≤ 2 * x := by
  have hsq := sq_le_sq.2 h
  nlinarith

/-- Rounding keeps the order. -/
theorem RoundsTo.mono (h : RoundsTo x bits v) (h' : RoundsTo x' bits' v') (hle : x ≤ x') :
    v ≤ v' := by
  by_contra hgt
  have hgt := not_le.1 hgt
  have hhigh := le_two_mul_of_abs_le hgt (h.nearest _ _ h'.decoded)
  have hlow := two_mul_le_of_abs_le hgt (h'.nearest _ _ h.decoded)
  obtain rfl : x = x' := le_antisymm hle (by linarith)
  have htie : |x - v| = |x - v'| :=
    le_antisymm (h.nearest _ _ h'.decoded) (h'.nearest _ _ h.decoded)
  have heven := h.even _ _ h'.decoded htie.symm hgt.ne
  have heven' := h'.even _ _ h.decoded htie hgt.ne'
  obtain ⟨k, hk, rfl, hlast⟩ := grid_of_decode h.decoded
  obtain ⟨k', hk', rfl, hlast'⟩ := grid_of_decode h'.decoded
  have hkk := grid_lt_iff.1 hgt
  -- between two numbers with an even last bit there is another one, which would be nearer
  have hbetween : k' + 1 < k := by omega
  obtain ⟨c, hc⟩ := exists_decode_grid (k := k' + 1) (by omega)
  have hbelow := two_mul_le_of_abs_le (grid_lt_succ k') (h'.nearest _ _ hc)
  have habove := le_two_mul_of_abs_le (grid_lt_iff.2 hbetween) (h.nearest _ _ hc)
  linarith

/-- There is one number to round to. -/
theorem RoundsTo.unique (h : RoundsTo x bits v) (h' : RoundsTo x bits' v') : v = v' :=
  le_antisymm (h.mono h' le_rfl) (h'.mono h le_rfl)

end

/-! ## Encoded quotients -/

theorem representable_magnitude (n : ℕ) : Representable (magnitude n) := by
  by_cases hn : n / 2 ^ 23 = 0
  · refine ⟨n, -149, ?_, ?_⟩
    · rw [abs_of_nonneg (by omega)]
      omega
    · rw [magnitude_of_lt (by omega)]
      rfl
  · refine ⟨(2 ^ 23 + n % 2 ^ 23 : ℕ), (n / 2 ^ 23 : ℕ) - 150, ?_, ?_⟩
    · rw [abs_of_nonneg (by omega)]
      omega
    · rw [magnitude_of_normal hn]
      rfl

theorem representable_of_decode {bits : UInt32} {v : ℚ} (h : decode bits = some v) :
    Representable v := by
  unfold decode at h
  split at h <;> cases h
  exact (representable_magnitude _).signed _

variable {x : Single}

/-- A number in the normal range is encoded by its sign, its biased exponent and its significand
without the leading bit. -/
theorem Normal.toNat_bits (hx : x.Normal) (hlow : -149 ≤ x.exponent) (hhigh : x.exponent ≤ 104) :
    x.bits.toNat = (if x.negative then 2 ^ 31 else 0) +
      ((x.exponent + 150).toNat * 2 ^ 23 + (x.significand - 2 ^ 23)) := by
  obtain ⟨hlong, hshort⟩ := hx
  have hsignificand : x.significand ≠ 0 := by omega
  have hbits : x.bits = UInt32.ofNat ((if x.negative then 2 ^ 31 else 0) +
      ((x.exponent + 150).toNat * 2 ^ 23 + (x.significand - 2 ^ 23))) := by
    rw [bits, if_neg hsignificand]
    simp only [Nat.shiftLeft_eq, Nat.one_mul, Nat.add_assoc]
  rw [hbits, UInt32.toNat_ofNat_of_lt']
  rw [UInt32.size]
  split <;> omega

theorem Normal.decode_bits (hx : x.Normal) (hlow : -149 ≤ x.exponent) (hhigh : x.exponent ≤ 104) :
    decode x.bits = some x.value := by
  obtain ⟨hlong, hshort⟩ := hx
  obtain ⟨n, hn⟩ : ∃ n, n = (x.exponent + 150).toNat * 2 ^ 23 + (x.significand - 2 ^ 23) := ⟨_, rfl⟩
  have hfields : n / 2 ^ 23 = (x.exponent + 150).toNat ∧
      2 ^ 23 + n % 2 ^ 23 = x.significand := by omega
  have hbits := Normal.toNat_bits ⟨hlong, hshort⟩ hlow hhigh
  rw [← hn] at hbits
  rw [decode_of_toNat (by omega) hbits, magnitude_of_normal (by omega), hfields.1, hfields.2]
  have hexponent : (((x.exponent + 150).toNat : ℕ) : ℤ) - 150 = x.exponent := by omega
  rw [hexponent]
  rfl

variable {num den : ℕ}

theorem roundsTo_zero : RoundsTo 0 zero.bits zero.value := by
  have hdecoded : decode 0 = some 0 := by
    simp [decode, magnitude_zero]
  rw [value_zero]
  refine ⟨hdecoded, fun other w _ => ?_, fun _ _ _ _ _ => rfl⟩
  rw [sub_zero, abs_zero]
  exact abs_nonneg _

/-- A quotient that is zero or in the normal range is rounded to the nearest number, a tie to
even. -/
theorem roundsTo_ofRatio (negative : Bool) (num : ℕ) (hden : 0 < den) (hrange : 0 < num →
    2 ^ (-100 : ℤ) ≤ (num / den : ℚ) ∧ (num / den : ℚ) < 2 ^ (100 : ℤ)) :
    RoundsTo (signed negative (num / den)) (ofRatio negative num den).bits
      (ofRatio negative num den).value := by
  rcases Nat.eq_zero_or_pos num with rfl | hnum
  · simpa [ofRatio] using roundsTo_zero
  obtain ⟨hlow, hhigh⟩ := hrange hnum
  have hwrites := ofRatio_writes negative hnum hden
  have hnearest := ofRatio_nearest negative hnum hden
  obtain ⟨hunder, hover⟩ := exponentOf_bounds hnum hden
  have hleast : -100 < exponentOf num den + 24 :=
    (zpow_lt_zpow_iff_right₀ one_lt_two).1 (hlow.trans_lt hover)
  have hmost : exponentOf num den + 23 < 100 :=
    (zpow_lt_zpow_iff_right₀ one_lt_two).1 (hunder.trans_lt hhigh)
  have hexponent := hwrites.exponent
  refine ⟨hwrites.normal.decode_bits (by omega) (by omega), fun other w hw => ?_,
    fun other w hw htie hne => ?_⟩
  · exact hnearest.le w (representable_of_decode hw)
  · have heven := hnearest.tie w (representable_of_decode hw) htie hne
    rw [hwrites.normal.toNat_bits (by omega) (by omega)]
    split <;> omega

end SyncPoint.Single
