import SyncPoint.Contract
import SyncPoint.Supervision
import SyncPoint.Text.Quoted
import SyncPoint.Host.Clock

/-!
# The world of host queues

A host queue executes its commands in order, on a worker of its own.  The world holds every command
ever accepted, in the order of acceptance across all queues, so that a command's number is greater
than those of the commands it waits for.  A queue holds the commands that its worker has not
received yet, and where the worker is with the one it has.

Nothing here runs by itself: what callers do is in `SyncPoint.Host.Calls`, what workers do in
`SyncPoint.Host.Worker`.
-/

namespace SyncPoint.Host

/-- Names a clock of the world. -/
abbrev ClockRef := Nat

/-- One action of a command's work. Work does a number of these and ends; it makes no calls on
queues, events or tables. -/
inductive Action
  /-- Appends a number to the trace of the command's queue. -/
  | push (entry : Int)
  /-- Appends the length of a queue's trace to the trace of the command's queue. -/
  | see (q : QueueRef)
  | panic (payload : PanicPayload)
  deriving DecidableEq, Repr

/-- Whether a command has run, and when if it captured that. -/
inductive Completion
  | pending
  | complete (times : Option Timestamps)
  deriving DecidableEq, Repr

namespace Completion

def status : Completion → Status
  | pending => .pending
  | complete _ => .complete

/-- The times, of a command that has run. -/
def times? : Completion → Option Timestamps
  | pending => none
  | complete times => times

end Completion

/-- A command that a queue accepted. -/
structure Command where
  queue : QueueRef
  kind : CommandKind
  timed : Bool
  work : List Action := []
  waitList : List CommandRef := []
  completion : Completion := .pending
  deriving DecidableEq, Repr

instance : Inhabited Command := ⟨{ queue := 0, kind := .marker, timed := false }⟩

/-- Where a worker is. -/
inductive Worker
  | idle
  /-- It has received a command and stands before the gate. -/
  | atGate (c : CommandRef)
  /-- It is past the gate and waits for these commands, one after the other. -/
  | waiting (c : CommandRef) (remaining : List CommandRef)
  /-- It has read the clock for the start, if the command is timed, and has these actions to do. -/
  | running (c : CommandRef) (start : Option UInt64) (remaining : List Action)
  /-- It has done the work and read the clock for the end, if the command is timed. -/
  | finishing (c : CommandRef) (times : Option Timestamps)
  deriving DecidableEq, Repr

structure Queue where
  id : QueueId
  name : String
  profiling : Bool
  clock : ClockRef
  /-- How many handles callers hold. The queue is gone when there is none. -/
  handles : Nat := 1
  /-- Whether the queue takes commands; false for ever after a shutdown. -/
  accepting : Bool := true
  paused : Bool := false
  /-- The newest command accepted. -/
  last : Option CommandRef := none
  /-- The commands that the worker has not received, oldest first. -/
  inbox : List CommandRef := []
  worker : Worker := .idle
  /-- Whether the worker is there. It is not after a panic that nobody caught, and then it never is
  again: it leaves the command that it has, and those that it has not received. -/
  alive : Bool := true
  /-- What the queue's work has appended. -/
  trace : List Int := []
  panics : List PanicPayload := []
  deriving DecidableEq, Repr

instance : Inhabited Queue :=
  ⟨{ id := ⟨0⟩, name := "", profiling := false, clock := 0, handles := 0, accepting := false }⟩

/-- The world of host queues. -/
structure World where
  clocks : List Clock
  queues : List Queue := []
  commands : List Command := []

/-- The clock of the process, by which queues run that are given none of their own. -/
def processClock : ClockRef := 0

namespace World

/-- A world without queues, where the process's clock has these readings. -/
def empty (process : Nat → UInt64) : World := { clocks := [{ reading := process }] }

/-- A queue; one that does not exist has no handles and takes no commands. -/
def queue (w : World) (q : QueueRef) : Queue := w.queues.getD q default

def command (w : World) (c : CommandRef) : Command := w.commands.getD c default

def setQueue (w : World) (q : QueueRef) (queue : Queue) : World :=
  { w with queues := w.queues.set q queue }

def setCommand (w : World) (c : CommandRef) (command : Command) : World :=
  { w with commands := w.commands.set c command }

theorem queue_of_lt (w : World) {q : QueueRef} (hq : q < w.queues.length) :
    w.queue q = w.queues[q] := by
  simp [queue, hq]

theorem queue_of_le (w : World) {q : QueueRef} (hq : w.queues.length ≤ q) :
    w.queue q = default := by
  simp [queue, List.getElem?_eq_none hq]

theorem queue_setQueue_self (w : World) {q : QueueRef} (hq : q < w.queues.length) (queue : Queue) :
    (w.setQueue q queue).queue q = queue := by
  simp [World.queue, setQueue, hq]

theorem queue_setQueue_of_ne (w : World) {q r : QueueRef} (hr : r ≠ q) (queue : Queue) :
    (w.setQueue q queue).queue r = w.queue r := by
  simp [World.queue, setQueue, List.getElem?_set_ne hr.symm]

@[simp] theorem command_setQueue (w : World) (q : QueueRef) (queue : Queue) :
    (w.setQueue q queue).command = w.command := rfl

theorem command_setCommand_self (w : World) {c : CommandRef} (hc : c < w.commands.length)
    (command : Command) : (w.setCommand c command).command c = command := by
  simp [World.command, setCommand, hc]

theorem command_setCommand_of_ne (w : World) {c d : CommandRef} (hd : d ≠ c) (command : Command) :
    (w.setCommand c command).command d = w.command d := by
  simp [World.command, setCommand, List.getElem?_set_ne hd.symm]

@[simp] theorem queue_setCommand (w : World) (c : CommandRef) (command : Command) :
    (w.setCommand c command).queue = w.queue := rfl

def status (w : World) (c : CommandRef) : Status := (w.command c).completion.status

def times? (w : World) (c : CommandRef) : Option Timestamps := (w.command c).completion.times?

/-- The commands that a queue accepted, in order. -/
def accepted (w : World) (q : QueueRef) : List CommandRef :=
  (List.range w.commands.length).filter fun c => (w.command c).queue = q

/-- Whether a command of the queue has not run. -/
def hasPending (w : World) (q : QueueRef) : Bool :=
  (w.accepted q).any fun c => w.status c = .pending

/-- Whether the queue's commands can still be advanced: a handle remains and the queue takes
commands. -/
def canAdvance (w : World) (q : QueueRef) : Bool :=
  0 < (w.queue q).handles && (w.queue q).accepting

def readClock (w : World) (q : QueueRef) : UInt64 × World :=
  match w.clocks[(w.queue q).clock]? with
  | none => (0, w)
  | some clock =>
    (clock.read.1, { w with clocks := w.clocks.set (w.queue q).clock clock.read.2 })

end World

def Queue.describe (queue : Queue) : String :=
  "HostQueue \x7b id: " ++ queue.id.describe ++ ", name: " ++ Text.quoted queue.name
    ++ ", profiling: " ++ toString queue.profiling ++ ", .. \x7d"

def World.describeCommand (w : World) (c : CommandRef) : String :=
  let command := w.command c
  "HostCommand \x7b queue: " ++ (w.queue command.queue).id.describe ++ ", kind: "
    ++ command.kind.name ++ ", timed: " ++ toString command.timed ++ ", status: "
    ++ command.completion.status.name ++ ", .. \x7d"

end SyncPoint.Host
