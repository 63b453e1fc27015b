/-!
# Single precision

Numbers with a sign and 24 significant bits, the precision of IEEE 754's `binary32`.  A quotient of
natural numbers is rounded to the nearest such number, a tie to the one with the even significand.
The exponent is not bounded here; `Single.bits` is the interchange encoding for numbers in the
normal range of `binary32`, from `2 ^ (-126)` up to `2 ^ 128`, and for zero.
-/

namespace SyncPoint

/-- The number `significand * 2 ^ exponent`, negated if `negative` is set. The significand is zero,
or it has exactly 24 bits. -/
structure Single where
  negative : Bool
  significand : Nat
  exponent : Int
  deriving DecidableEq, Repr

namespace Single

def precision : Nat := 24

def zero : Single := ⟨false, 0, 0⟩

/-- The quotient rounded to the nearest natural number, a tie to the even one. -/
def roundDiv (num den : Nat) : Nat :=
  let quotient := num / den
  let rest := num % den
  if 2 * rest < den ∨ (2 * rest = den ∧ quotient % 2 = 0) then quotient else quotient + 1

/-- The quotient `num / den` counted in units of `2 ^ exponent`, as a quotient again. -/
def inUnits (num den : Nat) (exponent : Int) : Nat × Nat :=
  (num <<< (-exponent).toNat, den <<< exponent.toNat)

/-- The exponent that gives the quotient a whole part of 24 bits. The bit lengths of `num` and
`den` settle it but for one. -/
def exponentOf (num den : Nat) : Int :=
  let guess : Int := (num.log2 : Int) - den.log2 - (precision - 1)
  let scaled := inUnits num den guess
  if scaled.1 < scaled.2 <<< (precision - 1) then guess - 1 else guess

/-- The quotient `num / den` rounded to 24 significant bits. A significand that rounding carries
to `2 ^ 24` is written with the next exponent. -/
def ofRatio (negative : Bool) (num den : Nat) : Single :=
  if num = 0 then zero
  else
    let exponent := exponentOf num den
    let scaled := inUnits num den exponent
    let significand := roundDiv scaled.1 scaled.2
    if significand = 1 <<< precision then ⟨negative, 1 <<< (precision - 1), exponent + 1⟩
    else ⟨negative, significand, exponent⟩

/-- The nearest number to an integer. -/
def ofInt (n : Int) : Single := ofRatio (n < 0) n.natAbs 1

/-- The quotient of a number and a positive natural number, rounded once more. -/
def divNat (x : Single) (den : Nat) : Single :=
  ofRatio x.negative (x.significand <<< x.exponent.toNat) (den <<< (-x.exponent).toNat)

/-- The interchange encoding: sign, biased exponent, and the significand without its leading
bit. -/
def bits (x : Single) : UInt32 :=
  let sign := if x.negative then 1 <<< 31 else 0
  if x.significand = 0 then UInt32.ofNat sign
  else
    let biased := (x.exponent + 150).toNat
    UInt32.ofNat (sign + (biased <<< 23) + (x.significand - (1 <<< 23)))

end Single

end SyncPoint
