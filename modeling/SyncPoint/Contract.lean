import SyncPoint.Failure

/-!
# The queue contract

A queue executes commands in order.  Nothing here knows how: an engine is whatever answers the
requests below, and the operations on events are written against these answers alone.

Queues and commands are named by numbers.  Two queues may share an identifier and still be two
queues, and two names of commands are the same position exactly when they are the same number.
-/

namespace SyncPoint

/-- Names a queue of an engine. -/
abbrev QueueRef := Nat

/-- Names a command of an engine. -/
abbrev CommandRef := Nat

/-- Whether a command has run. -/
inductive Status
  | pending
  | complete
  deriving DecidableEq, Repr

/-- When a command ran, in nanoseconds of its engine's clock. -/
structure Timestamps where
  start : UInt64
  stop : UInt64
  deriving DecidableEq, Repr

/-- Whether a marker should capture timestamps. -/
inductive MarkerTiming
  | timed
  | untimed
  deriving DecidableEq, Repr

/-- The timing that suits a queue: timed if the queue profiles. -/
def MarkerTiming.forProfiling (profiling : Bool) : MarkerTiming :=
  if profiling then .timed else .untimed

/-- What a marker is asked to be: its timing, and what it waits for. `α` names commands. -/
structure MarkerRequest (α : Type) where
  timing : MarkerTiming
  waitList : List α := []
  deriving DecidableEq, Repr

/-- What a command represents in its queue. -/
inductive CommandKind
  | work
  | marker
  /-- A synchronization point that callers do not see. -/
  | barrier
  deriving DecidableEq, Repr

/-- What operations ask of an engine. -/
inductive EngineRequest
  | queueId (q : QueueRef)
  | profiling (q : QueueRef)
  /-- The newest command of the queue. -/
  | lastEnqueued (q : QueueRef)
  | enqueueMarker (q : QueueRef) (request : MarkerRequest CommandRef)
  | status (c : CommandRef)
  /-- Nudges the queue of a command; tells whether it can make progress. -/
  | tryAdvance (c : CommandRef)
  | await (c : CommandRef)
  /-- When the command ran, if it captured that. -/
  | timestamps (c : CommandRef)
  /-- Whether callers may see the command as a position. -/
  | userVisible (c : CommandRef)
  | ownerId (c : CommandRef)
  /-- The command's queue, unless it is gone. -/
  | owner (c : CommandRef)
  deriving DecidableEq, Repr

/-- What an engine answers. -/
@[reducible] def EngineRequest.Answer : EngineRequest → Type
  | .queueId _ => QueueId
  | .profiling _ => Bool
  | .lastEnqueued _ => Option CommandRef
  | .enqueueMarker .. => Except Failure CommandRef
  | .status _ => Status
  | .tryAdvance _ => Bool
  | .await _ => Unit
  | .timestamps _ => Option Timestamps
  | .userVisible _ => Bool
  | .ownerId _ => QueueId
  | .owner _ => Option QueueRef

namespace Status

def name : Status → String
  | pending => "Pending"
  | complete => "Complete"

end Status

namespace MarkerTiming

def name : MarkerTiming → String
  | timed => "Timed"
  | untimed => "Untimed"

end MarkerTiming

namespace CommandKind

def name : CommandKind → String
  | work => "Work"
  | marker => "Marker"
  | barrier => "Barrier"

end CommandKind

def Timestamps.describe (times : Timestamps) : String :=
  "Timestamps \x7b start: " ++ toString times.start ++ ", end: " ++ toString times.stop ++ " \x7d"

def MarkerRequest.describe {α : Type} (request : MarkerRequest α) : String :=
  "MarkerRequest \x7b timing: " ++ request.timing.name ++ ", wait_list_len: "
    ++ toString request.waitList.length ++ " \x7d"

end SyncPoint
