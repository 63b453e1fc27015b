import SyncPoint.Event.Readiness
import SyncPoint.Elapsed

/-!
# Measuring the time between events

Two recorded events at different positions are measured from end to end.  If one of them is bound
only implicitly, the measure runs from the start of the first command to the end of the second.  Two
events at one position, one of them recorded, have nothing between them to measure; a marker is
enqueued behind the position and measured against, and for that marker alone the caller waits.

Both events are locked, the one constructed first before the other, so that two threads that measure
the same events in opposite directions cannot wait for each other.
-/

namespace SyncPoint

/-- The timestamps of a command that has to have them. -/
def timestampsOf (command : CommandRef) : Operation Timestamps := do
  match ← Program.engine (.timestamps command) with
  | some times => return times
  | none => throw .noTimestamps

namespace Event

/-- Takes the locks of two events for the time of an operation, in the order of construction. -/
def guardingBoth {α : Type} (start stop : Event) (body : Operation α) : Operation α :=
  if start.ordinal < stop.ordinal then start.guarding (stop.guarding body)
  else stop.guarding (start.guarding body)

/-- The end of a marker enqueued behind `position` and waited for. -/
def freshMarkerEnd (event : Event) (position : CommandRef) : Operation UInt64 := do
  match ← Program.engine (.owner position) with
  | none => throw .positionQueueGone
  | some queue =>
    Program.log (.freshMarker event.ordinal (← Program.engine (.queueId queue)))
    let timing := MarkerTiming.forProfiling (← Program.engine (.profiling queue))
    let marker ← enqueueMarker queue timing
    Program.engine (.await marker)
    return (← timestampsOf marker).stop

/-- The nanoseconds from an event to itself: none, if the event could be measured at all. -/
def nanosToSelf (event : Event) : Operation Int :=
  event.guarding do
    match (← Program.request (.binding event)).position? with
    | none => throw .unboundEvent
    | some position =>
      if event.flags.timingDisabled then throw .timingDisabled
      if !(← isReady position) then throw .pending
      return 0

/-- The nanoseconds between two bound positions, both known to have run. -/
def nanosBetween (start : Event) (startRecorded stopRecorded : Bool)
    (startPosition stopPosition : CommandRef) : Operation Int := do
  let startTimes ← timestampsOf startPosition
  if startPosition ≠ stopPosition ∧ startRecorded ∧ stopRecorded then
    let stopTimes ← timestampsOf stopPosition
    return Elapsed.nanosBetween startTimes.stop stopTimes.stop
  else if startPosition = stopPosition ∧ (startRecorded ∨ stopRecorded) then
    let markerEnd ← start.freshMarkerEnd startPosition
    return Elapsed.nanosBetween startTimes.stop markerEnd
  else
    let stopTimes ← timestampsOf stopPosition
    return Elapsed.nanosBetween startTimes.start stopTimes.stop

/-- The nanoseconds from one event to another one. -/
def nanosToOther (start stop : Event) : Operation Int :=
  guardingBoth start stop do
    let startBinding ← Program.request (.binding start)
    let stopBinding ← Program.request (.binding stop)
    match startBinding.position?, stopBinding.position? with
    | some startPosition, some stopPosition =>
      if start.flags.timingDisabled || stop.flags.timingDisabled then throw .timingDisabledInPair
      if !(← isReady startPosition) then throw .pending
      if !(← isReady stopPosition) then throw .pending
      nanosBetween start startBinding.recorded stopBinding.recorded startPosition stopPosition
    | _, _ => throw .unboundPair

/-- The nanoseconds from `start` to `stop`, exactly; negative if `stop` came first. -/
def elapsedNanos (start stop : Event) : Operation Int :=
  if start.ordinal = stop.ordinal then start.nanosToSelf else nanosToOther start stop

def elapsedTime (start stop : Event) : Operation Single := do
  return Elapsed.millis (← elapsedNanos start stop)

end Event

end SyncPoint
