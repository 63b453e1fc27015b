import SyncPoint.System

/-!
# A scripted engine

An engine that does only what it is told.  Every command carries its own script: whether it is done,
its timestamps, and the outcomes of the nudges to come.  Every queue carries the scripts of the
markers to come.  What the engine was asked to do, as opposed to report, is kept in order.
-/

namespace SyncPoint.Scripted

/-- The outcome of one nudge. -/
structure Nudge where
  /-- What the nudge reports. -/
  succeeds : Bool
  /-- Whether the command is done after it. -/
  completes : Bool
  deriving DecidableEq, Repr

/-- Once a script is used up, nudges succeed and change nothing. -/
def Nudge.idle : Nudge := ⟨true, false⟩

/-- The script of a command. -/
structure Script where
  done : Bool := false
  /-- Reported only once the command is done. -/
  times : Option Timestamps := none
  visible : Bool := true
  nudges : List Nudge := []
  deriving DecidableEq, Repr

/-- What becomes of a marker request. -/
inductive MarkerPlan
  | add (script : Script)
  | fail (kind : FailureKind)
  deriving DecidableEq, Repr

/-- A command: the queue it was put on, and what is left of its script. -/
structure Command where
  queue : QueueRef
  script : Script := {}
  deriving DecidableEq, Repr, Inhabited

structure Queue where
  id : QueueId
  profiling : Bool := true
  /-- Whether commands still find their queue. -/
  present : Bool := true
  last : Option CommandRef := none
  markers : List MarkerPlan := []
  deriving DecidableEq, Repr

instance : Inhabited Queue := ⟨{ id := ⟨0⟩ }⟩

/-- What the engine was asked to do. -/
inductive Call
  | advance (c : CommandRef)
  | await (c : CommandRef)
  | marker (q : QueueRef) (timing : MarkerTiming) (waitList : List CommandRef)
  deriving DecidableEq, Repr

/-- The state of the engine. -/
structure State where
  queues : List Queue := []
  commands : List Command := []
  calls : List Call := []
  deriving Repr

namespace State

def queue (s : State) (q : QueueRef) : Queue := s.queues.getD q default

def command (s : State) (c : CommandRef) : Command := s.commands.getD c default

def setQueue (s : State) (q : QueueRef) (queue : Queue) : State :=
  { s with queues := s.queues.set q queue }

def setScript (s : State) (c : CommandRef) (script : Script) : State :=
  { s with commands := s.commands.set c { s.command c with script := script } }

def noted (s : State) (call : Call) : State := { s with calls := s.calls ++ [call] }

def addQueue (s : State) (queue : Queue) : QueueRef × State :=
  (s.queues.length, { s with queues := s.queues ++ [queue] })

def push (s : State) (q : QueueRef) (script : Script) : CommandRef × State :=
  let c := s.commands.length
  let queue := { s.queue q with last := some c }
  (c, { s.setQueue q queue with commands := s.commands ++ [{ queue := q, script := script }] })

def status (s : State) (c : CommandRef) : Status :=
  if (s.command c).script.done then .complete else .pending

/-- Follows the queue's plan for a marker request. Timestamps come only with a timed request. -/
def enqueueMarker (s : State) (q : QueueRef) (request : MarkerRequest CommandRef) :
    Except Failure CommandRef × State :=
  let s := s.noted (.marker q request.timing request.waitList)
  let plan := (s.queue q).markers.headD (.add {})
  let s := s.setQueue q { s.queue q with markers := (s.queue q).markers.tail }
  match plan with
  | .fail kind => (.error (.reported kind "scripted failure"), s)
  | .add script =>
    let times := if request.timing = .timed then script.times else none
    let pushed := s.push q { script with times := times }
    (.ok pushed.1, pushed.2)

/-- Follows a command's script for a nudge. -/
def tryAdvance (s : State) (c : CommandRef) : Bool × State :=
  let s := s.noted (.advance c)
  let script := (s.command c).script
  let nudge := script.nudges.headD .idle
  (nudge.succeeds, s.setScript c
    { script with nudges := script.nudges.tail, done := script.done || nudge.completes })

/-- Waiting for a command makes it done. -/
def await (s : State) (c : CommandRef) : State :=
  let s := s.noted (.await c)
  s.setScript c { (s.command c).script with done := true }

end State

/-- The scripted engine. It answers every request. -/
def engine : Engine State where
  serve
    | .queueId q, s => some ⟨(s.queue q).id, s, []⟩
    | .profiling q, s => some ⟨(s.queue q).profiling, s, []⟩
    | .lastEnqueued q, s => some ⟨(s.queue q).last, s, []⟩
    | .enqueueMarker q request, s =>
      let planned := s.enqueueMarker q request
      some ⟨planned.1, planned.2, []⟩
    | .status c, s => some ⟨s.status c, s, []⟩
    | .tryAdvance c, s =>
      let nudged := s.tryAdvance c
      some ⟨nudged.1, nudged.2, []⟩
    | .await c, s => some ⟨(), s.await c, []⟩
    | .timestamps c, s =>
      let script := (s.command c).script
      some ⟨if script.done then script.times else none, s, []⟩
    | .userVisible c, s => some ⟨(s.command c).script.visible, s, []⟩
    | .ownerId c, s => some ⟨(s.queue (s.command c).queue).id, s, []⟩
    | .owner c, s =>
      let q := (s.command c).queue
      some ⟨if (s.queue q).present then some q else none, s, []⟩

end SyncPoint.Scripted
