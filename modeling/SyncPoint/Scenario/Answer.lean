import SyncPoint.Table

/-!
# Answers to scenario steps

Every step of a scenario is answered by a value.
-/

namespace SyncPoint.Scenario

/-- Kinds of slots that a step can fill. -/
inductive SlotKind
  | queue | event | table | command
  deriving DecidableEq, Repr

/-- The answer to a step that measures a time. -/
inductive Measurement
  | millis (value : Single)
  /-- A time was measured on the process's clock, whose readings are not reported. -/
  | masked
  | failed (failure : Failure)
  /-- The step was not done, since it might wait for ever. -/
  | blocked
  deriving DecidableEq, Repr

/-- The answer to a step. -/
inductive Answer
  | ok
  | failed (failure : Failure)
  /-- The step made something, found in this slot. -/
  | made (kind : SlotKind) (slot : Nat)
  /-- The step made an event in a table. -/
  | madeHandle (slot : Nat) (handle : EventHandle)
  | eventStatus (status : EventStatus)
  | commandStatus (status : Status)
  | measurement (result : Measurement)
  /-- The step was not done, since it would wait for ever. -/
  | blocked
  /-- The step was not done, since what happens next would depend on timing. -/
  | refused
  /-- The different answers of threads that measured in both directions. -/
  | bothWays (forward backward : List Measurement)
  /-- The statuses before and after a queue was resumed. -/
  | around (before : EventStatus) (after : Option EventStatus)
  | event (flags : EventFlags) (recorded : Bool) (position : Option CommandRef)
  | size (events : Nat)
  | distinct (handles : Nat)
  | text (text : String)
  | trace (entries : List Int)
  | queue (id : QueueId) (name : String) (profiling : Bool) (text : String)
  | command (advances visible : Bool) (owner : QueueId) (timing : Option MarkerTiming)
      (text : String)
  deriving DecidableEq, Repr

end SyncPoint.Scenario
