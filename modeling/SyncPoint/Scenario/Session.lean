import SyncPoint.System
import SyncPoint.Scenario.Answer

/-!
# Sessions

A scenario is a list of steps over things that the steps themselves make: queues, events, tables and
handles.  Each is named by its slot, counted per kind from zero in the order of creation; a creation
that fails takes no slot.  A session holds the slots and the system, and runs operations for steps.
-/

namespace SyncPoint.Scenario

/-- The state of a scenario. A slot is empty once what it named was dropped. -/
structure Session (σ : Type) where
  system : System σ
  queues : List (Option QueueRef) := []
  events : List (Option Event) := []
  handles : List EventHandle := []

/-- What a session needs to know about its engine. -/
structure Rules (σ : Type) where
  engine : Engine σ
  /-- Whether there is such a command. -/
  hasCommand : σ → CommandRef → Bool
  /-- Whether measuring against a marker behind this command might wait for ever. -/
  mayStall : σ → CommandRef → Bool
  /-- Whether the command ran by the process's clock. -/
  masked : σ → CommandRef → Bool

namespace Session

variable {σ α : Type}

/-- Puts an engine's state into a session. -/
def withEngine (session : Session σ) (state : σ) : Session σ :=
  { session with system := { session.system with engine := state } }

def queue? (session : Session σ) (slot : Nat) : Option QueueRef := session.queues[slot]?.join

def event? (session : Session σ) (slot : Nat) : Option Event := session.events[slot]?.join

/-- The command of a label, if there is one. -/
def command? (session : Session σ) (rules : Rules σ) (label : Nat) : Option CommandRef :=
  if rules.hasCommand session.system.engine label then some label else none

/-- The table of a slot. Tables are never dropped. -/
def table? (session : Session σ) (slot : Nat) : Option TableRef :=
  if slot < session.system.tables.length then some slot else none

def addEvent (session : Session σ) (event : Event) : Answer × Session σ :=
  (.made .event session.events.length,
    { session with events := session.events ++ [some event] })

/-- Runs a program that always succeeds and makes an answer of its result. If it would wait for
ever, the step is not done. -/
def perform (session : Session σ) (rules : Rules σ) (program : Program α)
    (answer : α → Session σ → Answer × Session σ) : Answer × Session σ :=
  match session.system.run rules.engine program with
  | none => (.blocked, session)
  | some (value, system) => answer value { session with system := system }

/-- Runs a program that may fail and makes an answer of its result. -/
def attempt (session : Session σ) (rules : Rules σ) (operation : Operation α)
    (answer : α → Session σ → Answer × Session σ) : Answer × Session σ :=
  session.perform rules operation.run fun
    | .ok value, session => answer value session
    | .error failure, session => (.failed failure, session)

/-- Runs a program that has nothing to report. -/
def attemptUnit (session : Session σ) (rules : Rules σ) (operation : Operation Unit) :
    Answer × Session σ :=
  session.attempt rules operation fun _ session => (.ok, session)

def position? (session : Session σ) (event : Event) : Option CommandRef :=
  (session.system.binding event).position?

/-- Whether measuring these events might wait for ever. Only different events at one position can
call for a marker; the flags of the events are not looked at. -/
def mayStall (session : Session σ) (rules : Rules σ) (a b : Event) : Bool :=
  match session.position? a, session.position? b with
  | some p, some q => a ≠ b && p = q && rules.mayStall session.system.engine p
  | _, _ => false

/-- A measured time as it is reported: not at all if one of the commands ran by the process's
clock. -/
def timeResult (session : Session σ) (rules : Rules σ) (a b : Event) (value : Single) :
    Measurement :=
  let masked (event : Event) : Bool :=
    (session.position? event).any (rules.masked session.system.engine)
  if masked a || masked b then .masked else .millis value

def measure (session : Session σ) (rules : Rules σ) (a b : Event) (operation : Operation Single) :
    Measurement × Session σ :=
  if session.mayStall rules a b then (.blocked, session)
  else
    match session.system.run rules.engine operation.run with
    | none => (.blocked, session)
    | some (.error failure, system) => (.failed failure, { session with system := system })
    | some (.ok value, system) =>
      (session.timeResult rules a b value, { session with system := system })

/-- Measures the time between two events and answers with it. -/
def measureStep (session : Session σ) (rules : Rules σ) (a b : Event)
    (operation : Operation Single) : Answer × Session σ :=
  let (result, session) := session.measure rules a b operation
  (.measurement result, session)

/-- Leaves the log as it was before: what was done was done by other threads. -/
def elsewhere (before : Session σ) (result : Answer × Session σ) : Answer × Session σ :=
  (result.1, { result.2 with system := { result.2.system with log := before.system.log } })

end Session

end SyncPoint.Scenario
