import SyncPoint.Event
import SyncPoint.Single

/-!
# The log

What operations write to the log is a value; its line is made from it in one place.
-/

namespace SyncPoint

/-- One entry of the log. -/
inductive LogEntry
  | commandEnqueued (queue : QueueId) (kind : CommandKind) (timed : Bool)
  | queueShutDown (queue : QueueId)
  | workPanicked (queue : QueueId) (message : String)
  /-- An event was bound to the position it had already. -/
  | alreadyBound (ordinal : Nat) (queue : QueueId)
  | bound (ordinal : Nat) (queue : QueueId) (recorded : Bool)
  /-- Two events at one position are measured against a marker enqueued for that. -/
  | freshMarker (ordinal : Nat) (queue : QueueId)
  | queueWaits (ordinal : Nat) (queue : QueueId)
  | created (handle : EventHandle) (flags : EventFlags)
  | destroyed (handle : EventHandle)
  | record (handle : EventHandle) (queue : QueueId)
  | streamWait (handle : EventHandle) (queue : QueueId)
  | synchronize (handle : EventHandle)
  | elapsed (start stop : EventHandle) (millis : Single)
  deriving DecidableEq, Repr

namespace LogEntry

/-- Panics are errors, and changes that callers ask for are worth more attention than the traffic
between. -/
def level : LogEntry → String
  | workPanicked .. => "ERROR"
  | queueShutDown _ | freshMarker .. | created .. | destroyed _ => "DEBUG"
  | _ => "TRACE"

def subject : LogEntry → String
  | commandEnqueued .. => "command enqueued"
  | queueShutDown _ => "host queue shut down"
  | workPanicked .. => "work panicked; the command completes without its effects"
  | alreadyBound .. => "event already bound to position"
  | bound .. => "event bound to position"
  | freshMarker .. => "events share a position; measuring against a fresh marker"
  | queueWaits .. => "queue now waits for event"
  | created .. => "event created"
  | destroyed _ => "event destroyed"
  | record .. => "record"
  | streamWait .. => "stream wait"
  | synchronize _ => "synchronize"
  | elapsed .. => "elapsed time"

/-- What it happened to, as names and values. -/
def fields : LogEntry → List (String × String)
  | commandEnqueued queue kind timed =>
    [("queue", queue.render), ("kind", kind.name), ("timed", toString timed)]
  | queueShutDown queue => [("queue", queue.render)]
  | workPanicked queue message => [("queue", queue.render), ("panic_message", message)]
  | alreadyBound ordinal queue | freshMarker ordinal queue | queueWaits ordinal queue =>
    [("event", toString ordinal), ("queue", queue.render)]
  | bound ordinal queue recorded =>
    [("event", toString ordinal), ("queue", queue.render), ("recorded", toString recorded)]
  | created handle flags => [("event", handle.render), ("flags", flags.render)]
  | destroyed handle | synchronize handle => [("event", handle.render)]
  | record handle queue | streamWait handle queue =>
    [("event", handle.render), ("queue", queue.render)]
  | elapsed start stop millis =>
    [("start", start.render), ("stop", stop.render), ("millis", s!"bits:{millis.bits}")]

def render (entry : LogEntry) : String :=
  " ".intercalate
    (entry.level :: entry.subject :: entry.fields.map fun field => field.1 ++ "=" ++ field.2)

end LogEntry

end SyncPoint
