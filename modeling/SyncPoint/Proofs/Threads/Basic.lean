import SyncPoint.Proofs.Machine.Tables

/-!
# Threads that share events, over any engine

Threads run operations in turns on one system, as in `Host.Machine`, but the engine is whatever
answers requests.  Between the requests it may go on by itself: `moves` says to which states.

An event is meant by the object itself or by a handle of a table (`Reference`).  An `Access` is one
of the five operations that tables offer on events they hold, on events that are meant in either
way: `Access.operation` is the operation on the objects, and `Access.call` is what a caller who has
those references calls.
-/

namespace SyncPoint.Threads

variable {σ α ρ : Type}

/-- By what a caller means an event. -/
inductive Reference
  | object (event : Event)
  | handle (table : TableRef) (handle : EventHandle)

/-- What is done to events, which are meant by `ρ`, with a result `α`. -/
inductive Access (ρ : Type) : Type → Type
  | record (x : ρ) (queue : QueueRef) : Access ρ Unit
  | query (x : ρ) : Access ρ EventStatus
  | synchronize (x : ρ) : Access ρ Unit
  | streamWait (x : ρ) (queue : QueueRef) : Access ρ Unit
  | elapsedTime (start stop : ρ) : Access ρ Single

namespace Access

/-- By what an access means events. -/
def references : Access ρ α → List ρ
  | record x _ | query x | synchronize x | streamWait x _ => [x]
  | elapsedTime start stop => [start, stop]

/-- The two events between which an access measures the time. -/
def measured? : Access ρ α → Option (ρ × ρ)
  | elapsedTime start stop => some (start, stop)
  | _ => none

/-- The same is done to events that are meant by the objects themselves. -/
def direct : Access Event α → Access Reference α
  | record event queue => record (.object event) queue
  | query event => query (.object event)
  | synchronize event => synchronize (.object event)
  | streamWait event queue => streamWait (.object event) queue
  | elapsedTime start stop => elapsedTime (.object start) (.object stop)

/-- The operation on the objects. -/
def operation : Access Event α → Operation α
  | record event queue => event.record queue
  | query event => liftM event.query
  | synchronize event => liftM event.synchronize
  | streamWait event queue => event.streamWait queue
  | elapsedTime start stop => start.elapsedTime stop

/-- The same is done, to events that these references mean. -/
inductive Resolves (means : Reference → Event → Prop) :
    {α : Type} → Access Reference α → Access Event α → Prop
  | record {x : Reference} {event : Event} (queue : QueueRef) (h : means x event) :
      Resolves means (.record x queue) (.record event queue)
  | query {x : Reference} {event : Event} (h : means x event) :
      Resolves means (.query x) (.query event)
  | synchronize {x : Reference} {event : Event} (h : means x event) :
      Resolves means (.synchronize x) (.synchronize event)
  | streamWait {x : Reference} {event : Event} (queue : QueueRef) (h : means x event) :
      Resolves means (.streamWait x queue) (.streamWait event queue)
  | elapsedTime {x y : Reference} {start stop : Event} (hstart : means x start)
      (hstop : means y stop) : Resolves means (.elapsedTime x y) (.elapsedTime start stop)

theorem Resolves.mono {means means' : Reference → Event → Prop} {a : Access Reference α}
    {b : Access Event α} (h : a.Resolves means b)
    (hle : ∀ x event, means x event → means' x event) : a.Resolves means' b := by
  cases h with
  | record queue h => exact .record queue (hle _ _ h)
  | query h => exact .query (hle _ _ h)
  | synchronize h => exact .synchronize (hle _ _ h)
  | streamWait queue h => exact .streamWait queue (hle _ _ h)
  | elapsedTime hstart hstop => exact .elapsedTime (hle _ _ hstart) (hle _ _ hstop)

theorem Resolves.measured? {means : Reference → Event → Prop} {a : Access Reference α}
    {b : Access Event α} (h : a.Resolves means b) {x y : Reference}
    (hmeasured : a.measured? = some (x, y)) :
    ∃ start stop, b.measured? = some (start, stop) ∧ means x start ∧ means y stop := by
  cases h with
  | elapsedTime hstart hstop =>
    cases hmeasured
    exact ⟨_, _, rfl, hstart, hstop⟩
  | record | query | synchronize | streamWait => cases hmeasured

theorem operation_of_measured? {b : Access Event α} {start stop : Event}
    (hmeasured : b.measured? = some (start, stop)) :
    b.operation ≍ start.elapsedTime stop := by
  cases b with
  | elapsedTime =>
    cases hmeasured
    rfl
  | record | query | synchronize | streamWait => cases hmeasured

theorem resolves_direct {means : Reference → Event → Prop}
    (hmeans : ∀ event, means (.object event) event) (b : Access Event α) :
    b.direct.Resolves means b := by
  cases b with
  | record event queue => exact .record queue (hmeans event)
  | query event => exact .query (hmeans event)
  | synchronize event => exact .synchronize (hmeans event)
  | streamWait event queue => exact .streamWait queue (hmeans event)
  | elapsedTime start stop => exact .elapsedTime (hmeans start) (hmeans stop)

end Access

/-- The object of a reference. -/
def Reference.get : Reference → Operation Event
  | .object event => pure event
  | .handle table number => Table.get table number

/-- What a caller calls: the operation of the object or that of the table.  Where two events are not
both meant by handles of one table, the caller gets the objects of the handles first. -/
def Access.call : Access Reference α → Operation α
  | .record (.object event) queue => event.record queue
  | .record (.handle table handle) queue => Table.record table handle queue
  | .query (.object event) => liftM event.query
  | .query (.handle table handle) => Table.query table handle
  | .synchronize (.object event) => liftM event.synchronize
  | .synchronize (.handle table handle) => Table.synchronize table handle
  | .streamWait (.object event) queue => event.streamWait queue
  | .streamWait (.handle table handle) queue => Table.streamWait table handle queue
  | .elapsedTime (.handle table start) (.handle other stop) =>
    if table = other then Table.elapsedTime table start stop
    else do (← Table.get table start).elapsedTime (← Table.get other stop)
  | .elapsedTime start stop => do (← start.get).elapsedTime (← stop.get)

theorem Access.call_direct (b : Access Event α) : b.direct.call = b.operation := by
  cases b <;> rfl

/-! ## Threads -/

/-- What a thread does: it has access to events, or it does anything else. -/
inductive Use (α : Type)
  | access (access : Access Reference α)
  | other (operation : Operation α)

def Use.program : Use α → Program (Except Failure α)
  | access a => a.call.run
  | other operation => operation.run

/-- What a thread does, and what is left of it to do. -/
structure Task where
  Value : Type
  use : Use Value
  rest : Program (Except Failure Value)

/-- A system with the threads that use it, each with what it did last. -/
structure State (σ : Type) where
  system : System σ
  tasks : ThreadId → Option Task := fun _ => none

/-- One step, as it is told afterwards. -/
inductive Happening (σ : Type)
  /-- The engine went on to a state, and wrote to the log. -/
  | move (engine : σ) (entries : List LogEntry)
  /-- Somebody asked for the identifier of a queue. -/
  | identify (queue : QueueRef)
  | enter (t : ThreadId) {α : Type} (use : Use α)
  /-- A thread had a request answered. -/
  | ask (t : ThreadId) (request : Request) (answer : request.Answer)

/-- The steps of a run, oldest first. -/
abbrev History (σ : Type) := List (Happening σ)

/-- The thread that made a step. -/
def Happening.thread? : Happening σ → Option ThreadId
  | move .. | identify _ => none
  | enter t _ | ask t _ _ => some t

/-- What a step does to a table. -/
def Happening.act? (ref : TableRef) : Happening σ → Option TableAct
  | ask _ request answer => Host.Exchange.act? ref ⟨request, answer⟩
  | move .. | identify _ | enter .. => none

namespace History

/-- What a thread did last. -/
def last? (h : History σ) (t : ThreadId) : Option (Happening σ) :=
  (h.filter fun l => l.thread? = some t).getLast?

/-- What was done to a table. -/
def ledger (h : History σ) (ref : TableRef) : List TableAct := h.filterMap (·.act? ref)

/-- An object means itself.  A handle means the event that was put into the table under that
number, for ever. -/
inductive Means (h : History σ) : Reference → Event → Prop
  | object (event : Event) : Means h (.object event) event
  | handle {ref : TableRef} {handle : EventHandle} {event : Event}
      (hfiled : (handle, event) ∈ TableAct.filed (h.ledger ref)) :
      Means h (.handle ref handle) event

variable {h : History σ} {t : ThreadId} {l : Happening σ}

theorem last?_concat_self (hl : l.thread? = some t) : last? (h ++ [l]) t = some l := by
  simp [last?, List.filter_append, hl]

theorem last?_append_of_ne {h' : History σ} (hl : ∀ l ∈ h', l.thread? ≠ some t) :
    last? (h ++ h') t = last? h t := by
  have hnone : h'.filter (fun l => l.thread? = some t) = [] :=
    List.filter_eq_nil_iff.2 fun l hmem => by simpa using hl l hmem
  rw [last?, List.filter_append, hnone, List.append_nil, last?]

theorem ledger_append (h h' : History σ) (ref : TableRef) :
    ledger (h ++ h') ref = ledger h ref ++ ledger h' ref :=
  List.filterMap_append

theorem ledger_concat (h : History σ) (l : Happening σ) (ref : TableRef) :
    ledger (h ++ [l]) ref = ledger h ref ++ (l.act? ref).toList := by
  rw [ledger_append]
  cases hact : l.act? ref <;> simp [ledger, hact]

theorem Means.append {x : Reference} {event : Event} (hmeans : Means h x event) (h' : History σ) :
    Means (h ++ h') x event := by
  cases hmeans with
  | object => exact .object event
  | handle hfiled =>
    refine .handle ?_
    rw [ledger_append, TableAct.filed_append]
    exact List.mem_append_left _ hfiled

end History

/-- Nothing of the task is left to do, if there is one. -/
def AtRest (task : Option Task) : Prop := ∀ x ∈ task, ∃ result, x.rest = .done result

namespace State

/-- The thread does nothing, and can begin something. -/
def Idle (s : State σ) (t : ThreadId) : Prop := AtRest (s.tasks t)

def withTask (s : State σ) (t : ThreadId) (task : Option Task) (system : System σ) : State σ :=
  { system := system, tasks := fun u => if u = t then task else s.tasks u }

@[simp] theorem tasks_withTask_self (s : State σ) (t : ThreadId) (task : Option Task)
    (system : System σ) : (s.withTask t task system).tasks t = task :=
  if_pos rfl

theorem tasks_withTask_of_ne (s : State σ) {t u : ThreadId} (hne : u ≠ t) (task : Option Task)
    (system : System σ) : (s.withTask t task system).tasks u = s.tasks u :=
  if_neg hne

@[simp] theorem system_withTask (s : State σ) (t : ThreadId) (task : Option Task)
    (system : System σ) : (s.withTask t task system).system = system := rfl

/-- A thread goes on with what it does. -/
theorem withTask_self (s : State σ) {t : ThreadId} {task : Option Task} (h : s.tasks t = task) :
    s.withTask t task s.system = s := by
  subst h
  rw [withTask]
  congr 1
  funext u
  split
  next hu => rw [hu]
  next => rfl

theorem withTask_withTask (s : State σ) (t : ThreadId) (task task' : Option Task)
    (system system' : System σ) :
    (s.withTask t task system).withTask t task' system' = s.withTask t task' system' := by
  simp only [withTask]
  congr 1
  funext u
  split <;> rfl

def withSystem (s : State σ) (system : System σ) : State σ := { s with system := system }

@[simp] theorem system_withSystem (s : State σ) (system : System σ) :
    (s.withSystem system).system = system := rfl

end State

/-- Nothing has happened yet.  The tables of a run are there from its start; one that is made later
is one that nobody uses before. -/
def start (engine : σ) (limits : List (Option Nat)) : State σ :=
  { system := { engine := engine, tables := limits.map fun limit => { limit := limit } } }

variable (engine : Engine σ) (moves : σ → σ → Prop)

/-- One step. -/
inductive Step (s : State σ) : Happening σ → State σ → Prop
  | move {state : σ} {entries : List LogEntry} (h : moves s.system.engine state) :
      Step s (.move state entries) (s.withSystem
        { s.system with engine := state, log := s.system.log ++ entries })
  | identify {queue : QueueRef} {id : QueueId} {system : System σ} (t : ThreadId)
      (hserve : System.serve engine t (.engine (.queueId queue)) s.system = some (id, system)) :
      Step s (.identify queue) (s.withSystem system)
  | enter {t : ThreadId} {α : Type} (use : Use α) (hidle : s.Idle t) :
      Step s (.enter t use) (s.withTask t (some ⟨α, use, use.program⟩) s.system)
  | ask {t : ThreadId} {α : Type} {use : Use α} {request : Request}
      {next : request.Answer → Program (Except Failure α)} {answer : request.Answer}
      {system : System σ} (htask : s.tasks t = some ⟨α, use, .ask request next⟩)
      (hserve : System.serve engine t request s.system = some (answer, system)) :
      Step s (.ask t request answer) (s.withTask t (some ⟨α, use, next answer⟩) system)

/-- A run, each step of which is `within` bounds, and its history. -/
inductive RunWithin (within : State σ → Happening σ → Prop) (s : State σ) :
    History σ → State σ → Prop
  | refl : RunWithin within s [] s
  | snoc {h : History σ} {l : Happening σ} {s' s'' : State σ} (hrun : RunWithin within s h s')
      (hwithin : within s' l) (hstep : Step engine moves s' l s'') :
      RunWithin within s (h ++ [l]) s''

/-- A run and its history. -/
abbrev Run : State σ → History σ → State σ → Prop := RunWithin engine moves fun _ _ => True

variable {engine moves} {s s' s'' : State σ} {h h' : History σ} {l : Happening σ}

theorem Step.run (hstep : Step engine moves s l s') : Run engine moves s [l] s' :=
  .snoc (h := []) .refl trivial hstep

theorem Run.trans (hrun : Run engine moves s h s') (hrun' : Run engine moves s' h' s'') :
    Run engine moves s (h ++ h') s'' := by
  induction hrun' with
  | refl => simpa using hrun
  | snoc _ _ hstep ih =>
    rw [← List.append_assoc]
    exact .snoc ih trivial hstep

/-! ## The tables of a run -/

open TableAct

/-- What a step does to a table. -/
theorem Step.table_acts (hstep : Step engine moves s l s') (ref : TableRef) :
    match l.act? ref with
    | none => s'.system.table ref = s.system.table ref
    | some act => (s.system.table ref).Acts act (s'.system.table ref) := by
  cases hstep with
  | move | enter => rfl
  | identify t hserve => exact Host.acts_of_serve ref hserve
  | ask htask hserve => exact Host.acts_of_serve ref hserve

/-- The table is as its ledger says, which is that of a bounded map. -/
structure Keeps (ref : TableRef) (limit : Option Nat) (s : State σ) (acts : List TableAct) :
    Prop where
  conforms : Conforms limit acts
  represents : Represents limit (s.system.table ref) acts

theorem Keeps.of_step {ref : TableRef} {limit : Option Nat} {acts : List TableAct}
    (hkeeps : Keeps ref limit s acts) (hstep : Step engine moves s l s') :
    Keeps ref limit s' (acts ++ (l.act? ref).toList) := by
  obtain ⟨hconforms, hrepresents⟩ := hkeeps
  have hacts := hstep.table_acts ref
  cases hact : l.act? ref with
  | none =>
    rw [hact] at hacts
    rw [Option.toList_none, List.append_nil]
    exact ⟨hconforms, hacts.symm ▸ hrepresents⟩
  | some act =>
    rw [hact] at hacts
    have hproper : Proper limit acts act := hrepresents.proper hconforms hacts
    exact ⟨hconforms.concat hproper, hrepresents.after hconforms hacts⟩

/-- Every table keeps to its ledger; one that is not there has room for nothing. -/
theorem Run.keeps {e : σ} {limits : List (Option Nat)}
    (hrun : Run engine moves (start e limits) h s) (ref : TableRef) :
    Keeps ref (limits.getD ref (some 0)) s (h.ledger ref) := by
  induction hrun with
  | refl =>
    refine ⟨.nil, ?_⟩
    rw [show (start e limits).system.table ref = { limit := limits.getD ref (some 0) } by
      simp only [start, System.table, List.getD_eq_getElem?_getD, List.getElem?_map]
      cases limits[ref]? <;> rfl]
    exact .start _
  | snoc _ _ hstep ih =>
    rw [History.ledger_concat]
    exact ih.of_step hstep

/-- What a handle is found to mean is what was put into the table under it. -/
theorem Run.means_of_find? {e : σ} {limits : List (Option Nat)}
    (hrun : Run engine moves (start e limits) h s) {ref : TableRef} {handle : EventHandle}
    {event : Event} (hfind : (s.system.table ref).find? handle = some event) :
    h.Means (.handle ref handle) event :=
  .handle ((Run.keeps hrun ref).represents.live_of_find? hfind).1

/-- A reference means one event only. -/
theorem Run.means_unique {e : σ} {limits : List (Option Nat)}
    (hrun : Run engine moves (start e limits) h s) {x : Reference} {event event' : Event}
    (hmeans : h.Means x event) (hmeans' : h.Means x event') : event = event' := by
  cases hmeans with
  | object => cases hmeans'; rfl
  | @handle ref handle _ hfiled =>
    cases hmeans' with
    | handle hfiled' =>
      -- no number is given out twice
      have heq := List.inj_on_of_nodup_map (Run.keeps hrun ref).conforms.nodup hfiled hfiled' rfl
      exact congrArg Prod.snd heq

/-- A look-up finds what the handle means. -/
theorem Run.means_of_look {e : σ} {limits : List (Option Nat)}
    (hrun : Run engine moves (start e limits) h s) {t : ThreadId} {ref : TableRef}
    {handle : EventHandle} {event : Event}
    (hlook : .ask t (.find ref handle) (some event) ∈ h) : h.Means (.handle ref handle) event := by
  induction hrun with
  | refl => cases hlook
  | @snoc h l x y hbefore _ hstep ih =>
    rcases List.mem_append.1 hlook with hmem | hmem
    · exact (ih hmem).append [l]
    · obtain rfl := List.mem_singleton.1 hmem
      cases hstep with
      | ask htask hserve =>
        have hfind := (Prod.mk.inj (Option.some.inj hserve)).1
        exact (Run.means_of_find? hbefore hfind).append _

/-- A handle is found as long as it was not destroyed. -/
theorem Run.find?_iff {e : σ} {limits : List (Option Nat)}
    (hrun : Run engine moves (start e limits) h s) {ref : TableRef} {handle : EventHandle}
    {event : Event} : (s.system.table ref).find? handle = some event ↔
      h.Means (.handle ref handle) event ∧ handle ∉ destroyed (h.ledger ref) := by
  have hrepresents := (Run.keeps hrun ref).represents
  constructor
  · intro hfind
    exact ⟨Run.means_of_find? hrun hfind, (hrepresents.live_of_find? hfind).2.2⟩
  · rintro ⟨hmeans, halive⟩
    cases hmeans with
    | handle hfiled =>
      cases hfind : (s.system.table ref).find? handle with
      | none =>
        have hdead := hrepresents.find?_eq_none_iff.1 hfind
        exact absurd ⟨mem_issued_of_mem_filed hfiled, halive⟩ hdead
      | some event' =>
        rw [Run.means_unique hrun (Run.means_of_find? hrun hfind) (.handle hfiled)]

end SyncPoint.Threads
