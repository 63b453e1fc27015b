import SyncPoint.Single

/-!
# Elapsed time

Timestamps count nanoseconds.  A difference of two of them is taken exactly, as an integer, rounded
once to single precision, and divided there by the nanoseconds of a millisecond.
-/

namespace SyncPoint.Elapsed

def nanosPerMilli : Nat := 1000000

/-- The exact time from one reading to another; negative if `stop` is the earlier one. -/
def nanosBetween (start stop : UInt64) : Int :=
  (stop.toNat : Int) - (start.toNat : Int)

def millis (nanos : Int) : Single :=
  (Single.ofInt nanos).divNat nanosPerMilli

/-- One second and a half, and minus one nanosecond. -/
example : (millis 1500000000).bits = 0x44BB8000 ∧ (millis (-1)).bits = 0xB58637BD := by decide +kernel

end SyncPoint.Elapsed
