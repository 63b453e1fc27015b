import SyncPoint.QueueId
import SyncPoint.Text.Hexadecimal

/-!
# Failures

An operation fails for one of a fixed number of reasons.  Each reason belongs to one of five kinds,
which is what callers branch on, and has one wording.  An engine may also report a failure of its
own, which is passed on as it is.

A want of memory is no reason here: a table is refused no room below its limit
(`SyncPoint.Table.isFull`).
-/

namespace SyncPoint

/-- What callers branch on. -/
inductive FailureKind
  | invalidValue
  /-- An event or its position cannot be used for the request. -/
  | invalidHandle
  | notReady
  | outOfMemory
  /-- A queue cannot take or advance commands. -/
  | resourceExhausted
  deriving DecidableEq, Repr

def FailureKind.name : FailureKind → String
  | .invalidValue => "InvalidValue"
  | .invalidHandle => "InvalidHandle"
  | .notReady => "NotReady"
  | .outOfMemory => "OutOfMemory"
  | .resourceExhausted => "ResourceExhausted"

/-- Why an operation failed. -/
inductive Failure
  /-- The flags hold these bits, which name no flag. -/
  | unrecognizedFlags (bits : UInt32)
  | conflictingReleaseScopes
  /-- The command was enqueued on `owner` and not on `queue`. -/
  | foreignCommand (owner queue : QueueId)
  | unboundEvent
  | unboundPair
  | timingDisabled
  | timingDisabledInPair
  | noTimestamps
  /-- The handle was never issued, or its event is destroyed. -/
  | unknownEvent
  | pending
  | tableFull
  | positionQueueGone
  /-- The queue of the event's position takes no commands any more. -/
  | queueStalled
  | queueShutDown
  /-- The worker of the queue came to an end before its time. -/
  | workerGone
  /-- A failure in an engine's own words. -/
  | reported (kind : FailureKind) (problem : String)
  deriving DecidableEq, Repr

namespace Failure

def kind : Failure → FailureKind
  | unrecognizedFlags _ | conflictingReleaseScopes | foreignCommand .. => .invalidValue
  | unboundEvent | unboundPair | timingDisabled | timingDisabledInPair | noTimestamps
  | unknownEvent => .invalidHandle
  | pending => .notReady
  | tableFull => .outOfMemory
  | positionQueueGone | queueStalled | queueShutDown | workerGone => .resourceExhausted
  | reported kind _ => kind

def problem : Failure → String
  | unrecognizedFlags bits => "unrecognized event flag bits " ++ Text.showMask bits
  | conflictingReleaseScopes => "RELEASE_TO_DEVICE and RELEASE_TO_SYSTEM are mutually exclusive"
  | foreignCommand owner queue =>
    "the command belongs to " ++ owner.render ++ ", not to " ++ queue.render
  | unboundEvent => "the event must be recorded before measuring elapsed time"
  | unboundPair => "both events must be recorded before measuring elapsed time"
  | timingDisabled => "timing is disabled for the event"
  | timingDisabledInPair => "timing is disabled for at least one of the events"
  | noTimestamps => "the command bound to the event did not capture timestamps"
  | unknownEvent => "unknown or destroyed event"
  | pending => ""
  | tableFull => "the event table has reached its configured capacity"
  | positionQueueGone => "the queue that owns the shared position no longer exists"
  | queueStalled => "the queue that owns the event cannot make progress"
  | queueShutDown => "the queue has been shut down"
  | workerGone => "the queue worker is no longer running"
  | reported _ problem => problem

/-- The message of a failure. Pending work needs no further explanation, so that kind alone
has a fixed text. -/
def message (f : Failure) : String :=
  match f.kind with
  | .invalidValue => "invalid value: " ++ f.problem
  | .invalidHandle => "invalid handle: " ++ f.problem
  | .notReady => "the work captured by the event has not completed yet"
  | .outOfMemory => "out of memory: " ++ f.problem
  | .resourceExhausted => "resource exhausted: " ++ f.problem

end Failure

end SyncPoint
