/-!
# Hexadecimal numbers

Masks are written in lower case with no leading zeros and read in either case.
-/

namespace SyncPoint.Text

/-- The lower-case hexadecimal digits of a number, most significant first. -/
def hexDigits (n : Nat) : String :=
  String.ofList (Nat.toDigits 16 n)

/-- A mask as it is shown: `0x` and the digits. -/
def showMask (bits : UInt32) : String :=
  "0x" ++ hexDigits bits.toNat

/-- The value of one hexadecimal digit, in either case. -/
def hexValue? (c : Char) : Option Nat :=
  if '0' ≤ c ∧ c ≤ '9' then some (c.toNat - '0'.toNat)
  else if 'a' ≤ c ∧ c ≤ 'f' then some (c.toNat - 'a'.toNat + 10)
  else if 'A' ≤ c ∧ c ≤ 'F' then some (c.toNat - 'A'.toNat + 10)
  else none

/-- Reads digits onto a value already read; any other character refuses the text. -/
def hexNumber? (value : Nat) : List Char → Option Nat
  | [] => some value
  | c :: rest => (hexValue? c).bind fun digit => hexNumber? (16 * value + digit) rest

/-- A sign is allowed once in front, and only a plus. -/
def dropPlus : List Char → List Char
  | '+' :: rest => rest
  | text => text

/-- Reads a 32-bit mask: one optional plus, then at least one digit, and no overflow.
Leading zeros do not count towards the width. -/
def mask? (text : List Char) : Option UInt32 :=
  match dropPlus text with
  | [] => none
  | digits =>
    (hexNumber? 0 digits).bind fun n => if n < UInt32.size then some (UInt32.ofNat n) else none

end SyncPoint.Text
