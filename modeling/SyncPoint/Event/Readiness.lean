import SyncPoint.Event.Binding

/-!
# Readiness and waiting

A query never waits: it looks at the position, nudges its queue if the command is pending, and looks
once more.  Waiting uses the position that the event had when the call began, and holds no lock, so
the event can be bound anew meanwhile.
-/

namespace SyncPoint

/-- Whether a command has run, after a nudge if it has not. The nudge may fail: the second look
alone counts. -/
def isReady (command : CommandRef) : Program Bool := do
  if (← Program.engine (.status command)) = .complete then return true
  let _ ← Program.engine (.tryAdvance command)
  return (← Program.engine (.status command)) = .complete

namespace Event

/-- Reports whether the captured work has completed. An event that was never bound captures
none. -/
def query (event : Event) : Program EventStatus :=
  event.locking do
    match (← Program.request (.binding event)).position? with
    | none => return .ready
    | some position => return if ← isReady position then .ready else .notReady

/-- Waits until the captured work has completed. -/
def synchronize (event : Event) : Program Unit := do
  match ← event.position? with
  | none => return
  | some position => Program.engine (.await position)

/-- Makes the commands that come to `queue` from now on wait for the event: a marker that waits for
the event's position is enqueued there. Nothing is needed if the event was never bound, or if its
position is on `queue` itself. -/
def streamWait (event : Event) (queue : QueueRef) : Operation Unit :=
  event.guarding do
    match (← Program.request (.binding event)).position? with
    | none => return
    | some position =>
      let owner ← Program.engine (.ownerId position)
      let target ← Program.engine (.queueId queue)
      if owner = target then return
      if !(← Program.engine (.tryAdvance position)) then throw .queueStalled
      let timing := MarkerTiming.forProfiling (← Program.engine (.profiling queue))
      let _ ← ExceptT.mk (Program.engine (.enqueueMarker queue ⟨timing, [position]⟩))
      Program.log (.queueWaits event.ordinal target)

end Event

end SyncPoint
