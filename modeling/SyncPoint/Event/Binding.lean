import SyncPoint.Program

/-!
# Binding events

`Event.addMarker` binds an event to a position of a queue: to a command that the caller names, or to
the current end of the queue.  A profiling queue's newest command serves as its end if callers can
see it, so that recording again and again does not pile up markers; otherwise a marker is enqueued.

Everything from choosing the position to the new binding happens under the event's lock.
-/

namespace SyncPoint

/-- Takes the lock of an event for the time of a program. -/
def Event.locking {α : Type} (event : Event) (body : Program α) : Program α := do
  Program.request (.lock event)
  let result ← body
  Program.request (.unlock event)
  return result

/-- Takes the lock of an event for the time of an operation, which may fail. -/
def Event.guarding {α : Type} (event : Event) (body : Operation α) : Operation α :=
  ExceptT.mk (event.locking body.run)

namespace Event

def create (flags : EventFlags) : Operation Event := do
  Operation.check flags.validate
  Program.request (.newEvent flags)

/-- Enqueues a marker that waits for nothing. -/
def enqueueMarker (queue : QueueRef) (timing : MarkerTiming) : Operation CommandRef :=
  ExceptT.mk (Program.engine (.enqueueMarker queue ⟨timing, []⟩))

/-- The current end of a queue. -/
def currentPosition (queue : QueueRef) : Operation CommandRef := do
  if !(← Program.engine (.profiling queue)) then
    enqueueMarker queue .untimed
  else
    match ← Program.engine (.lastEnqueued queue) with
    | none => enqueueMarker queue .timed
    | some last =>
      if ← Program.engine (.userVisible last) then return last
      enqueueMarker queue .timed

/-- The position to bind to: the caller's command if there is one, which has to belong to the
queue, or else the queue's current end. -/
def choosePosition (queue : QueueRef) : Option CommandRef → Operation CommandRef
  | none => currentPosition queue
  | some command => do
    let owner ← Program.engine (.ownerId command)
    let target ← Program.engine (.queueId queue)
    if owner = target then return command
    throw (.foreignCommand owner target)

/-- Binds the event to a command of `queue`, or to the queue's current end, and sets whether that
counts as recorded. If the event is at that position already, nothing changes. -/
def addMarker (event : Event) (queue : QueueRef) (command : Option CommandRef) (recorded : Bool) :
    Operation Unit :=
  event.guarding do
    let position ← choosePosition queue command
    let current ← Program.request (.binding event)
    let target ← Program.engine (.queueId queue)
    if current.position? = some position then
      Program.log (.alreadyBound event.ordinal target)
    else
      Program.request (.bind event (.bound position recorded))
      Program.log (.bound event.ordinal target recorded)

def record (event : Event) (queue : QueueRef) : Operation Unit :=
  event.addMarker queue none true

/-- Binds the event to a command without counting it as recorded. -/
def attachCommand (event : Event) (queue : QueueRef) (command : CommandRef) : Operation Unit :=
  event.addMarker queue (some command) false

def isRecorded (event : Event) : Program Bool :=
  event.locking do return (← Program.request (.binding event)).recorded

def position? (event : Event) : Program (Option CommandRef) :=
  event.locking do return (← Program.request (.binding event)).position?

/-- The event as it is shown; this never waits for the lock. -/
def display (event : Event) : Program String := do
  return event.describe (← Program.request (.peek event))

end Event

end SyncPoint
