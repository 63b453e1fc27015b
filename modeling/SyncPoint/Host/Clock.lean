/-!
# Clocks

A clock is the sequence of its readings, in nanoseconds, and the count of those already taken.  What
lies between two readings is no concern of the queues, so every question about time is one about
this sequence.
-/

namespace SyncPoint.Host

/-- A clock: its `k`-th reading for `k = 1, 2, …`, and how many readings were taken. -/
structure Clock where
  reading : Nat → UInt64
  taken : Nat := 0

namespace Clock

def read (clock : Clock) : UInt64 × Clock :=
  (clock.reading (clock.taken + 1), { clock with taken := clock.taken + 1 })

/-- Readings that grow by the same step, up to the greatest one. -/
def stepping (step : UInt64) (k : Nat) : UInt64 :=
  UInt64.ofNat (min (k * step.toNat) (UInt64.size - 1))

/-- Listed readings, the last of them for ever; zero if none is listed. -/
def listed (readings : List UInt64) (k : Nat) : UInt64 :=
  readings.getD (k - 1) (readings.getLastD 0)

end Clock

end SyncPoint.Host
