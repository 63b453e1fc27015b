import SyncPoint.Host.Engine

/-!
# Threads on host queues

A machine is a system of host queues, events and tables together with the threads that make calls
on it.  One step is a step of one worker, the beginning of a call, or one request of a thread and
its answer; steps of different workers and threads follow each other in any order.  What a call
does is its program, so threads meet between any two requests.  A lock that is held and a command
that has not run leave a request without an answer, and its thread where it is.

The history of a run is the list of its steps.  A call returns in the state in which its last
request is answered (`Returns`).
-/

namespace SyncPoint.Host

/-- Host queues as an engine whose workers stand still while a request is looked at. -/
def stillEngine : Engine World where
  serve request w := w.serve request

/-- What a thread can call for. -/
inductive Call
  | newQueue (config : QueueConfig)
  | cloneQueue (q : QueueRef)
  | dropQueue (q : QueueRef)
  | setPaused (q : QueueRef) (paused : Bool)
  | shutdown (q : QueueRef)
  | enqueueWork (q : QueueRef) (work : List Action)
  | enqueueMarker (q : QueueRef) (request : MarkerRequest CommandRef)
  | finish (q : QueueRef)
  | await (c : CommandRef)
  | newEvent (flags : EventFlags)
  | addMarker (event : Event) (q : QueueRef) (command : Option CommandRef) (recorded : Bool)
  | isRecorded (event : Event)
  | position? (event : Event)
  | display (event : Event)
  | query (event : Event)
  | synchronize (event : Event)
  | streamWait (event : Event) (q : QueueRef)
  | elapsedTime (start stop : Event)
  | newTable (limit : Option Nat)
  | tableCreate (table : TableRef) (raw : UInt32)
  | tableCreateDefault (table : TableRef)
  | tableDestroy (table : TableRef) (handle : EventHandle)
  | tableGet (table : TableRef) (handle : EventHandle)
  | tableRecord (table : TableRef) (handle : EventHandle) (q : QueueRef)
  | tableQuery (table : TableRef) (handle : EventHandle)
  | tableSynchronize (table : TableRef) (handle : EventHandle)
  | tableStreamWait (table : TableRef) (handle : EventHandle) (q : QueueRef)
  | tableElapsedTime (table : TableRef) (start stop : EventHandle)
  | tableSize (table : TableRef)
  | tableIsEmpty (table : TableRef)

namespace Call

/-- Records an event at the current end of a queue. -/
abbrev record (event : Event) (q : QueueRef) : Call := .addMarker event q none true

/-- Binds an event to a command without recording it. -/
abbrev attachCommand (event : Event) (q : QueueRef) (c : CommandRef) : Call :=
  .addMarker event q (some c) false

@[reducible] def Result : Call → Type
  | .newQueue _ => QueueRef
  | .cloneQueue _ | .dropQueue _ | .setPaused .. | .shutdown _ | .await _ | .synchronize _ => Unit
  | .enqueueWork .. | .enqueueMarker .. => Except Failure CommandRef
  | .finish _ | .addMarker .. | .streamWait .. | .tableDestroy .. | .tableRecord ..
  | .tableSynchronize .. | .tableStreamWait .. => Except Failure Unit
  | .newEvent _ | .tableGet .. => Except Failure Event
  | .isRecorded _ | .tableIsEmpty _ => Bool
  | .tableSize _ => Nat
  | .position? _ => Option CommandRef
  | .display _ => String
  | .query _ => EventStatus
  | .elapsedTime .. | .tableElapsedTime .. => Except Failure Single
  | .newTable _ => TableRef
  | .tableCreate .. | .tableCreateDefault _ => Except Failure EventHandle
  | .tableQuery .. => Except Failure EventStatus

/-- The queues that a call names, each through a handle. -/
def queues : Call → List QueueRef
  | .cloneQueue q | .dropQueue q | .setPaused q _ | .shutdown q | .enqueueWork q _
  | .enqueueMarker q _ | .finish q | .addMarker _ q _ _ | .streamWait _ q | .tableRecord _ _ q
  | .tableStreamWait _ _ q => [q]
  | _ => []

def commands : Call → List CommandRef
  | .enqueueMarker _ request => request.waitList
  | .await c => [c]
  | .addMarker _ _ command _ => command.toList
  | _ => []

def events : Call → List Event
  | .addMarker event .. | .isRecorded event | .position? event | .display event | .query event
  | .synchronize event | .streamWait event _ => [event]
  | .elapsedTime start stop => [start, stop]
  | _ => []

def tables : Call → List TableRef
  | .tableCreate table _ | .tableCreateDefault table | .tableDestroy table _ | .tableGet table _
  | .tableRecord table _ _ | .tableQuery table _ | .tableSynchronize table _
  | .tableStreamWait table _ _ | .tableElapsedTime table _ _ | .tableSize table
  | .tableIsEmpty table => [table]
  | _ => []

/-- Work that the call hands over leaves its worker alive: what it panics with can be dropped. -/
def Droppable (call : Call) : Prop :=
  ∀ q work, call = .enqueueWork q work → .panic .explosive ∉ work

end Call

/-- A program that has its result, with what the engine replied. -/
def settled {α : Type} (system : System World) (reply : Reply World α) :
    Program α × System World :=
  (.done reply.value, { system with engine := reply.state, log := system.log ++ reply.log })

/-- Waits for a barrier, if the queue took it. -/
def awaitBarrier : Except Failure CommandRef → Program (Except Failure Unit)
  | .error failure => .done (.error failure)
  | .ok c => .ask (.engine (.await c)) fun _ => .done (.ok ())

/-- What a call does when it begins, and what is then left of it to do. -/
def Call.enter (system : System World) : (call : Call) → Program call.Result × System World
  | .newQueue config =>
    (.done (system.engine.addQueue config).1,
      { system with engine := (system.engine.addQueue config).2 })
  | .cloneQueue q => (.done (), { system with engine := system.engine.cloneHandle q })
  | .dropQueue q => (.done (), { system with engine := system.engine.dropHandle q })
  | .setPaused q paused => (.done (), { system with engine := system.engine.setPaused q paused })
  | .shutdown q => settled system (system.engine.shutdown q)
  | .enqueueWork q work => settled system (system.engine.enqueueWork q work)
  | .enqueueMarker q request => settled system (system.engine.enqueueMarker q request)
  | .finish q =>
    (awaitBarrier (system.engine.enqueueBarrier q).value,
      (settled system (system.engine.enqueueBarrier q)).2)
  | .newTable limit =>
    (.done system.tables.length, { system with tables := system.tables ++ [{ limit := limit }] })
  | .await c => (Program.engine (.await c), system)
  | .newEvent flags => ((Event.create flags).run, system)
  | .addMarker event q command recorded => ((event.addMarker q command recorded).run, system)
  | .isRecorded event => (event.isRecorded, system)
  | .position? event => (event.position?, system)
  | .display event => (event.display, system)
  | .query event => (event.query, system)
  | .synchronize event => (event.synchronize, system)
  | .streamWait event q => ((event.streamWait q).run, system)
  | .elapsedTime start stop => ((start.elapsedTime stop).run, system)
  | .tableCreate table raw => ((Table.create table raw).run, system)
  | .tableCreateDefault table => ((Table.createDefault table).run, system)
  | .tableDestroy table handle => ((Table.destroy table handle).run, system)
  | .tableGet table handle => ((Table.get table handle).run, system)
  | .tableRecord table handle q => ((Table.record table handle q).run, system)
  | .tableQuery table handle => ((Table.query table handle).run, system)
  | .tableSynchronize table handle => ((Table.synchronize table handle).run, system)
  | .tableStreamWait table handle q => ((Table.streamWait table handle q).run, system)
  | .tableElapsedTime table start stop => ((Table.elapsedTime table start stop).run, system)
  | .tableSize table => (Table.count table, system)
  | .tableIsEmpty table => (Table.isEmpty table, system)

/-- Recording and attaching are the two ways in which events are given a position. -/
theorem Call.enter_record (event : Event) (q : QueueRef) (system : System World) :
    (Call.record event q).enter system = ((event.record q).run, system) := rfl

theorem Call.enter_attachCommand (event : Event) (q : QueueRef) (c : CommandRef)
    (system : System World) :
    (Call.attachCommand event q c).enter system = ((event.attachCommand q c).run, system) := rfl

/-- A call of a thread: what is left of it, and the queues of which it has a handle in use. -/
structure Task where
  call : Call
  rest : Program call.Result
  queues : List QueueRef

/-- A call that has not returned. -/
def Task.Unfinished (task : Task) : Prop :=
  ∃ request next, task.rest = .ask request next

/-- The handles that come with an answer: a command's queue is handed out as a new handle. -/
def handlesIn : (request : Request) → request.Answer → List QueueRef
  | .engine (.owner _), answer => answer.toList
  | _, _ => []

/-- A system with the threads that use it, each with its latest call. -/
structure Machine where
  system : System World
  tasks : ThreadId → Option Task := fun _ => none

/-- One step of a machine as it is told afterwards. -/
inductive Happening
  /-- The worker of a queue went on from a place. -/
  | worker (q : QueueRef) (place : Worker)
  /-- A thread began a call. -/
  | enter (t : ThreadId) (call : Call)
  /-- A thread had a request answered. -/
  | ask (t : ThreadId) (request : Request)

/-- The steps of a run, oldest first. -/
abbrev History := List Happening

/-- The thread that made a step, unless a worker did. -/
def Happening.thread? : Happening → Option ThreadId
  | .worker .. => none
  | .enter t _ | .ask t _ => some t

namespace Machine

/-- A machine before anything happens. -/
def start (process : Nat → UInt64) : Machine := { system := { engine := World.empty process } }

def world (s : Machine) : World := s.system.engine

def withWorld (s : Machine) (w : World) : Machine :=
  { s with system := { s.system with engine := w } }

def withTask (s : Machine) (t : ThreadId) (task : Task) (system : System World) : Machine :=
  { system := system, tasks := fun u => if u = t then some task else s.tasks u }

/-- The thread is in no call. -/
def Idle (s : Machine) (t : ThreadId) : Prop :=
  ∀ task, s.tasks t = some task → ¬ task.Unfinished

def InUse (s : Machine) (q : QueueRef) : Prop :=
  ∃ t task, s.tasks t = some task ∧ task.Unfinished ∧ q ∈ task.queues

/-- When a call can be made.  What it names is there, and a queue that is made finds a number.

The rest says what is relied on of those who make calls, and what they are not told to do. -/
structure Allows (s : Machine) (call : Call) : Prop where
  queues : ∀ q ∈ call.queues, 0 < (s.world.queue q).handles
  commands : ∀ c ∈ call.commands, c < s.world.commands.length
  events : ∀ event ∈ call.events, event.ordinal < s.system.cells.length
  tables : ∀ table ∈ call.tables, table < s.system.tables.length
  numbered : ∀ config, call = .newQueue config → s.world.queues.length + 1 < UInt64.size
  /-- A call in progress has a handle of each queue that it uses, which is not given back meanwhile.
  Another handle may be, and then it may as well be given back when the call is over
  (`Run.drop_later_of_inUse`). -/
  unused : ∀ q, call = .dropQueue q → (s.world.queue q).handles = 1 → ¬ s.InUse q
  /-- Work is a list of actions, so that it ends and makes no calls itself.  What it panics with can
  be dropped without another panic, which nobody would catch
  (`SyncPoint.Host.World.advance?`). -/
  droppable : call.Droppable

def enter (s : Machine) (t : ThreadId) (call : Call) : Machine :=
  s.withTask t ⟨call, (call.enter s.system).1, call.queues⟩ (call.enter s.system).2

/-- One step of a machine. -/
inductive Step (s : Machine) : Happening → Machine → Prop
  | worker {q : QueueRef} {w : World} (hstep : s.world.step? q = some w) :
      Step s (.worker q (s.world.queue q).worker) (s.withWorld w)
  | enter {t : ThreadId} {call : Call} (hidle : s.Idle t) (hallowed : s.Allows call) :
      Step s (.enter t call) (s.enter t call)
  | ask {t : ThreadId} {call : Call} {request : Request}
      {next : request.Answer → Program call.Result} {queues : List QueueRef}
      {answer : request.Answer} {system : System World}
      (htask : s.tasks t = some ⟨call, .ask request next, queues⟩)
      (hserve : System.serve stillEngine t request s.system = some (answer, system)) :
      Step s (.ask t request)
        (s.withTask t ⟨call, next answer, queues ++ handlesIn request answer⟩ system)

/-- A run and its history. -/
inductive Run (s : Machine) : History → Machine → Prop
  | refl : Run s [] s
  | snoc {h : History} {l : Happening} {s' s'' : Machine} (hrun : Run s h s')
      (hstep : Step s' l s'') : Run s (h ++ [l]) s''

/-- A state that a machine gets to. -/
def Reachable (s : Machine) : Prop := ∃ process h, Run (start process) h s

/-- The thread is in the call. -/
def Busy (s : Machine) (t : ThreadId) (call : Call) : Prop :=
  ∃ task, s.tasks t = some task ∧ task.call = call ∧ task.Unfinished

/-- From `s` on, where thread `t` is in a call, the machine runs until the call has a result. -/
inductive Performs (t : ThreadId) (call : Call) :
    Machine → History → call.Result → Machine → Prop
  | done {s : Machine} {value : call.Result} {queues : List QueueRef}
      (htask : s.tasks t = some ⟨call, .done value, queues⟩) : Performs t call s [] value s
  | step {s s' s'' : Machine} {l : Happening} {h : History} {value : call.Result}
      (hbusy : s.Busy t call) (hstep : Step s l s') (hrest : Performs t call s' h value s'') :
      Performs t call s (l :: h) value s''

/-- Thread `t` makes a call in `s`, and in `s'` it has just returned. Workers and other threads may
go on meanwhile. -/
def Returns (t : ThreadId) (call : Call) (s : Machine) (h : History) (value : call.Result)
    (s' : Machine) : Prop :=
  ∃ rest, h = .enter t call :: rest ∧ Step s (.enter t call) (s.enter t call) ∧
    Performs t call (s.enter t call) rest value s'

end Machine

end SyncPoint.Host
