import SyncPoint.Host.Engine
import SyncPoint.Scenario.EventStep

/-!
# Scenarios on host queues

After every step the workers go on until none can, so that no answer depends on timing.  A step that
would wait for ever is not done and answered as such.  Times by the process's clock are not
reported.
-/

namespace SyncPoint.Scenario.Host

open SyncPoint.Host

inductive TimingChoice
  | exactly (timing : MarkerTiming)
  /-- The timing that suits the queue. -/
  | forQueue
  deriving DecidableEq, Repr

/-- The steps on host queues. -/
inductive Step
  | event (step : EventStep)
  | queue (config : QueueConfig)
  | clone (q : Nat)
  | drop (q : Nat)
  | work (q : Nat) (actions : List Action)
  | marker (q : Nat) (timing : TimingChoice) (waitList : List Nat)
  | finish (q : Nat)
  | pause (q : Nat)
  | resume (q : Nat)
  | shutdown (q : Nat)
  | trace (q : Nat)
  /-- The trace of a queue counted by creation, even if it is gone. -/
  | traceOf (q : QueueRef)
  | info (q : Nat)
  | await (c : Nat)
  | command (c : Nat)
  /-- Another thread waits for an event while a queue is resumed. -/
  | syncResume (e q : Nat)
  /-- Another thread measures while a queue is resumed. -/
  | elapsedResume (a b q : Nat)

/-- Whether a marker behind this command might wait for ever: its queue takes the marker, and is
paused or busy. -/
def mayStall (w : World) (c : CommandRef) : Bool :=
  let q := (w.command c).queue
  w.status c = .complete && w.canAdvance q && ((w.queue q).paused || w.hasPending q)

/-- Whether the command's queue runs by the process's clock. -/
def masked (w : World) (c : CommandRef) : Bool :=
  (w.queue (w.command c).queue).clock = processClock

/-- What a session needs to know about host queues. -/
def rules : Rules World where
  engine := engine
  hasCommand w c := c < w.commands.length
  mayStall := mayStall
  masked := masked

/-- A session before its first step. As no time by the process's clock is reported, any readings
will do for it. -/
def start : Session World := { system := { engine := World.empty UInt64.ofNat } }

def world (session : Session World) : World := session.system.engine

/-- Takes over the state and the log of a reply. -/
def accept {α : Type} (session : Session World) (reply : Reply World α) : Session World :=
  { session with
    system := { session.system with
      engine := reply.state
      log := session.system.log ++ reply.log } }

def answered {α : Type} (session : Session World) (reply : Reply World (Except Failure α)) :
    Answer × Session World :=
  let answer : Answer := match reply.value with
    | .ok _ => .ok
    | .error failure => .failed failure
  (answer, accept session reply)

/-- Lets the workers of a session go on until none can. -/
def settle (session : Session World) : Session World :=
  session.withEngine (world session).settle

/-- The status of an event as a query reports it. -/
def queryEvent? (session : Session World) (event : Event) : Option (EventStatus × Session World) :=
  (session.system.run engine event.query).map fun (status, system) =>
    (status, { session with system := system })

/-- Does one step, before the workers go on. -/
def perform (session : Session World) : Step → Option (Answer × Session World)
  | .event step => session.eventStep rules step
  | .queue config =>
    let (q, w) := (world session).addQueue config
    some (.made .queue session.queues.length,
      { session.withEngine w with queues := session.queues ++ [some q] })
  | .clone q => do
    let ref ← session.queue? q
    return (.made .queue session.queues.length,
      { session.withEngine ((world session).cloneHandle ref) with
        queues := session.queues ++ [some ref] })
  | .drop q => do
    let ref ← session.queue? q
    return (.ok,
      { session.withEngine ((world session).dropHandle ref) with
        queues := session.queues.set q none })
  | .work q actions => do
    return answered session ((world session).enqueueWork (← session.queue? q) actions)
  | .marker q timing waitList => do
    let ref ← session.queue? q
    let timing := match timing with
      | .exactly timing => timing
      | .forQueue => MarkerTiming.forProfiling ((world session).queue ref).profiling
    let waitList ← waitList.mapM (session.command? rules)
    return answered session ((world session).enqueueMarker ref ⟨timing, waitList⟩)
  | .finish q => do
    match (world session).finish (← session.queue? q) with
    | none => return (.blocked, session)
    | some reply => return answered session reply
  | .pause q => do
    let ref ← session.queue? q
    let w := world session
    if !(w.queue ref).paused && w.hasPending ref then return (.refused, session)
    return (.ok, session.withEngine (w.setPaused ref true))
  | .resume q => do
    return (.ok, session.withEngine ((world session).setPaused (← session.queue? q) false))
  | .shutdown q => do
    return (.ok, accept session ((world session).shutdown (← session.queue? q)))
  | .trace q => do
    return (.trace ((world session).queue (← session.queue? q)).trace, session)
  | .traceOf q => do
    let queue ← (world session).queues[q]?
    return (.trace queue.trace, session)
  | .info q => do
    let queue := (world session).queue (← session.queue? q)
    return (.queue queue.id queue.name queue.profiling queue.describe, session)
  | .await c => do
    let c ← session.command? rules c
    return session.perform rules (Program.engine (.await c)) fun _ session => (.ok, session)
  | .command c => do
    let w := world session
    let c ← session.command? rules c
    let command := w.command c
    let queue := w.queue command.queue
    let timing :=
      if 0 < queue.handles then some (MarkerTiming.forProfiling queue.profiling) else none
    return (.command (w.canAdvance command.queue) (command.kind ≠ .barrier) queue.id timing
      (w.describeCommand c), session)
  | .syncResume e q => do
    let event ← session.event? e
    let ref ← session.queue? q
    let (before, session) ← queryEvent? session event
    let session := settle (session.withEngine ((world session).setPaused ref false))
    match (session.position? event).map (world session).status with
    | some .pending => return (.around before none, session)
    | _ =>
      let (after, session) ← queryEvent? session event
      return (.around before (some after), session)
  | .elapsedResume a b q => do
    let (a, b) := (← session.event? a, ← session.event? b)
    let ref ← session.queue? q
    let after := settle (session.withEngine ((world session).setPaused ref false))
    return session.elsewhere (after.measureStep rules a b (a.elapsedTime b))

/-- Does one step and lets the workers go on. -/
def step (session : Session World) (step : Step) : Option (Answer × Session World) :=
  (perform session step).map fun (answer, session) => (answer, settle session)

/-- What is reported of a command. -/
structure CommandView where
  label : CommandRef
  owner : QueueId
  kind : CommandKind
  timed : Bool
  completion : Completion
  /-- Whether its times are not reported. -/
  masked : Bool
  deriving DecidableEq, Repr

/-- What is reported of a command in a world. -/
def commandView (w : World) (c : CommandRef) : CommandView :=
  let command := w.command c
  { label := c
    owner := (w.queue command.queue).id
    kind := command.kind
    timed := command.timed
    completion := command.completion
    masked := masked w c }

/-- The commands that are new or have changed. -/
def changedCommands (before after : World) : List CommandView :=
  (List.range after.commands.length).filterMap fun c =>
    if before.commands[c]? = after.commands[c]? then none else some (commandView after c)

/-- The panics that happened since, queue by queue. -/
def newPanics (before after : World) : List LogEntry :=
  (List.range after.queues.length).flatMap fun q =>
    ((after.queue q).panics.drop (before.queue q).panics.length).map fun payload =>
      .workPanicked (after.queue q).id payload.report

structure Report where
  answer : Answer
  view : View
  /-- The newest command of each queue slot; nothing for an empty slot. -/
  last : List (Option (Option CommandRef))
  commands : List CommandView
  errors : List LogEntry
  deriving DecidableEq, Repr

/-- What is seen after a step that began with the session `before`. -/
def report (before : Session World) (answer : Answer) (session : Session World) : Report where
  answer := answer
  view := before.view session
  last := session.queues.map fun slot => slot.map fun q => ((world session).queue q).last
  commands := changedCommands (world before) (world session)
  errors := newPanics (world before) (world session)

/-- Does steps in order and reports on each. There is no result if a step cannot be done. -/
def run (steps : List Step) : Option (List Report) := start.run step report steps

end SyncPoint.Scenario.Host
