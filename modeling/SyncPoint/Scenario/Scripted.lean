import SyncPoint.Scripted
import SyncPoint.Scenario.EventStep

/-!
# Scenarios on the scripted engine

The steps here write the scripts that the engine follows.  Nothing on this engine waits, and no
command runs by a clock.
-/

namespace SyncPoint.Scenario.Scripted

open SyncPoint.Scripted

/-- What a change does to a value that may be left as it is. -/
inductive Change (α : Type)
  | keep
  | set (value : α)
  deriving DecidableEq, Repr

/-- The value after a change. -/
def Change.apply {α : Type} : Change α → α → α
  | keep, old => old
  | set value, _ => value

inductive Step
  | event (step : EventStep)
  | queue (id : QueueId) (profiling : Bool) (markers : List MarkerPlan)
  | push (q : Nat) (script : Script)
  | setCommand (c : CommandRef) (done : Change Bool) (times : Change (Option Timestamps))
      (nudges : Change (List Nudge))
  | setQueue (q : Nat) (profiling present : Change Bool) (markers : Change (List MarkerPlan))
      (last : Change (Option CommandRef))
  deriving DecidableEq, Repr

/-- Nothing stalls here and nothing is masked. -/
def rules : Rules State where
  engine := engine
  hasCommand state c := c < state.commands.length
  mayStall _ _ := false
  masked _ _ := false

/-- A session before its first step. -/
def start : Session State := { system := { engine := {} } }

def step (session : Session State) : Step → Option (Answer × Session State)
  | .event step => session.eventStep rules step
  | .queue id profiling markers =>
    let (q, state) := session.system.engine.addQueue
      { id := id, profiling := profiling, markers := markers }
    some (.made .queue session.queues.length,
      { session.withEngine state with queues := session.queues ++ [some q] })
  | .push q script => do
    let (c, state) := session.system.engine.push (← session.queue? q) script
    return (.made .command c, session.withEngine state)
  | .setCommand c done times nudges => do
    let state := session.system.engine
    let script := (state.command (← session.command? rules c)).script
    let state := state.setScript c
      { script with
        done := done.apply script.done
        times := times.apply script.times
        nudges := nudges.apply script.nudges }
    return (.commandStatus (state.status c), session.withEngine state)
  | .setQueue q profiling present markers last => do
    let q ← session.queue? q
    let state := session.system.engine
    let queue := state.queue q
    return (.ok, session.withEngine (state.setQueue q
      { queue with
        profiling := profiling.apply queue.profiling
        present := present.apply queue.present
        markers := markers.apply queue.markers
        last := last.apply queue.last }))

/-- What a step shows. -/
structure Report where
  answer : Answer
  view : View
  last : List (Option CommandRef)
  calls : List Call
  deriving DecidableEq, Repr

/-- What is seen after a step that began with the session `before`. -/
def report (before : Session State) (answer : Answer) (session : Session State) : Report where
  answer := answer
  view := before.view session
  last := session.queues.map fun slot => slot.bind fun q => (session.system.engine.queue q).last
  calls := session.system.engine.calls.drop before.system.engine.calls.length

/-- Does steps in order and reports on each. There is no result if a step cannot be done. -/
def run (steps : List Step) : Option (List Report) := start.run step report steps

end SyncPoint.Scenario.Scripted
