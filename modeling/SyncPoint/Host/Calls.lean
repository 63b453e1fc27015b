import SyncPoint.System
import SyncPoint.Host.World

/-!
# What callers do with host queues

A queue takes commands until it is shut down or its last handle is dropped; those it has taken are
executed all the same.  A paused queue's worker starts no further command.
-/

namespace SyncPoint.Host

/-- The clock that a new queue runs by. -/
inductive ClockChoice
  | process
  /-- A clock of its own, with these readings. -/
  | own (reading : Nat → UInt64)

/-- What a new queue is to be. -/
structure QueueConfig where
  /-- The name; if none is given, it is made of the queue's number. -/
  name : Option String := none
  profiling : Bool := true
  clock : ClockChoice := .process

namespace World

def addClock (w : World) : ClockChoice → ClockRef × World
  | .process => (processClock, w)
  | .own reading => (w.clocks.length, { w with clocks := w.clocks ++ [{ reading := reading }] })

/-- Makes a queue. Queues are numbered from one. -/
def addQueue (w : World) (config : QueueConfig) : QueueRef × World :=
  let number := w.queues.length + 1
  let name := config.name.getD ("queue-" ++ toString number)
  let clocked := w.addClock config.clock
  let queue : Queue :=
    { id := ⟨UInt64.ofNat number⟩, name := name, profiling := config.profiling, clock := clocked.1 }
  (w.queues.length, { clocked.2 with queues := w.queues ++ [queue] })

def cloneHandle (w : World) (q : QueueRef) : World :=
  w.setQueue q { w.queue q with handles := (w.queue q).handles + 1 }

def dropHandle (w : World) (q : QueueRef) : World :=
  w.setQueue q { w.queue q with handles := (w.queue q).handles - 1 }

/-- Closes or opens the gate of a queue. -/
def setPaused (w : World) (q : QueueRef) (paused : Bool) : World :=
  w.setQueue q { w.queue q with paused := paused }

def shutdown (w : World) (q : QueueRef) : Reply World Unit where
  value := ()
  state := w.setQueue q { w.queue q with accepting := false }
  log := if (w.queue q).accepting then [.queueShutDown (w.queue q).id] else []

/-- Puts a command at the end of its queue, if the queue takes commands and its worker is there. -/
def submit (w : World) (command : Command) : Reply World (Except Failure CommandRef) :=
  let q := command.queue
  let queue := w.queue q
  if !queue.accepting then { value := .error .queueShutDown, state := w }
  else if !queue.alive then { value := .error .workerGone, state := w }
  else
    let c := w.commands.length
    { value := .ok c
      state := { w.setQueue q { queue with inbox := queue.inbox ++ [c], last := some c } with
        commands := w.commands ++ [command] }
      log := [.commandEnqueued queue.id command.kind command.timed] }

/-- Enqueues work. It is timed if the queue profiles. -/
def enqueueWork (w : World) (q : QueueRef) (work : List Action) :
    Reply World (Except Failure CommandRef) :=
  w.submit { queue := q, kind := .work, timed := (w.queue q).profiling, work := work }

/-- Enqueues a marker. It is timed if the queue profiles and the request asks for that. -/
def enqueueMarker (w : World) (q : QueueRef) (request : MarkerRequest CommandRef) :
    Reply World (Except Failure CommandRef) :=
  w.submit
    { queue := q
      kind := .marker
      timed := (w.queue q).profiling && request.timing = .timed
      waitList := request.waitList }

/-- Enqueues the barrier that a caller waits for who wants everything before it to have run. It is
timed if the queue profiles. -/
def enqueueBarrier (w : World) (q : QueueRef) : Reply World (Except Failure CommandRef) :=
  w.submit { queue := q, kind := .barrier, timed := (w.queue q).profiling }

end World

end SyncPoint.Host
