import SyncPoint.Proofs.Machine.Conduct

/-!
# Programs that do not wait for commands

Most calls never wait for a command (`Program.Prompt`), and most of those that do so wait as the
last thing they do (`Program.WaitsLast`).  As a call ends without any lock, it then holds none while
it waits (`Program.WaitsLast.eq_nil`).  Only a measurement goes on after a wait.
-/

namespace SyncPoint

/-- The command that a request waits for. -/
def Request.awaited? : Request → Option CommandRef
  | .engine (.await c) => some c
  | _ => none

namespace Program

variable {α β : Type} {program : Program α} {next : α → Program β}

/-- The program never waits for a command. -/
def Prompt : Program α → Prop
  | .done _ => True
  | .ask request next => request.awaited? = none ∧ ∀ answer, (next answer).Prompt

/-- The program waits for a command only as the last thing that it does. -/
def WaitsLast : Program α → Prop
  | .done _ => True
  | .ask request next => ∀ answer, (next answer).WaitsLast ∧
      (request.awaited? ≠ none → ∃ value, next answer = .done value)

theorem Prompt.andThen (h : program.Prompt) (hnext : ∀ value, (next value).Prompt) :
    (program.andThen next).Prompt := by
  induction program with
  | done value => exact hnext value
  | ask request rest ih => exact ⟨h.1, fun answer => ih answer (h.2 answer)⟩

theorem Prompt.andThen_waitsLast (h : program.Prompt) (hnext : ∀ value, (next value).WaitsLast) :
    (program.andThen next).WaitsLast := by
  induction program with
  | done value => exact hnext value
  | ask request rest ih =>
    intro answer
    exact ⟨ih answer (h.2 answer), fun hawaits => absurd h.1 hawaits⟩

theorem Prompt.waitsLast (h : program.Prompt) : program.WaitsLast := by
  rw [← program.andThen_done]
  exact h.andThen_waitsLast fun _ => trivial

theorem prompt_request_andThen {request : Request} {next : request.Answer → Program α}
    (hrequest : request.awaited? = none) (hnext : ∀ answer, (next answer).Prompt) :
    ((Program.request request).andThen next).Prompt :=
  ⟨hrequest, hnext⟩

/-- Where a program waits for a command and nothing is left to do, it ends with what it holds. -/
theorem WaitsLast.eq_nil {request : Request} {next : request.Answer → Program α} {held : List Nat}
    {n : Extent} {c : CommandRef} (h : (ask request next).WaitsLast)
    (hobeys : (ask request next).Obeys (fun held _ _ => held = []) held n)
    (hawaits : request.awaited? = some c) : held = [] := by
  unfold Request.awaited? at hawaits
  split at hawaits
  next c' =>
    obtain ⟨value, hvalue⟩ := (h ()).2 nofun
    have hend := hobeys.2 () n n.refl trivial
    rw [hvalue] at hend
    exact hend
  next => cases hawaits

end Program

/-! ## Programs that never wait -/

open Program

variable {α β : Type}

section Operations

variable {operation : Operation β} {next : β → Operation α}

theorem prompt_bind (h : operation.run.Prompt) (hnext : ∀ value, (next value).run.Prompt) :
    (operation >>= next).run.Prompt := by
  apply Prompt.andThen h
  intro result
  cases result with
  | error failure => trivial
  | ok value => exact hnext value

theorem Program.Prompt.lift {program : Program α} (h : program.Prompt) :
    (liftM program : Operation α).run.Prompt :=
  h.andThen fun _ => trivial

theorem Program.WaitsLast.lift {program : Program α} (h : program.WaitsLast) :
    (liftM program : Operation α).run.WaitsLast := by
  induction program with
  | done value => trivial
  | ask request next ih =>
    intro answer
    obtain ⟨hnext, hlast⟩ := h answer
    refine ⟨ih answer hnext, fun hawaits => ?_⟩
    obtain ⟨value, hvalue⟩ := hlast hawaits
    exact ⟨.ok value, congrArg (fun rest => (liftM rest : Operation α).run) hvalue⟩

theorem prompt_bind_request {request : Request} {next : request.Answer → Operation α}
    (hrequest : request.awaited? = none) (hnext : ∀ answer, (next answer).run.Prompt) :
    ((liftM (Program.request request) : Operation request.Answer) >>= next).run.Prompt :=
  ⟨hrequest, hnext⟩

theorem prompt_check (result : Except Failure α) : (Operation.check result).run.Prompt := trivial

theorem prompt_marker (q : QueueRef) (request : MarkerRequest CommandRef) :
    (ExceptT.mk (Program.engine (.enqueueMarker q request)) : Operation CommandRef).run.Prompt :=
  ⟨rfl, fun _ => trivial⟩

theorem prompt_log (entry : LogEntry) : (liftM (Program.log entry) : Operation Unit).run.Prompt :=
  ⟨rfl, fun _ => trivial⟩

end Operations

theorem prompt_isReady (c : CommandRef) : (isReady c).Prompt := by
  refine prompt_request_andThen rfl fun status => ?_
  split
  · trivial
  · exact ⟨rfl, fun _ => ⟨rfl, fun _ => trivial⟩⟩

theorem prompt_timestampsOf (c : CommandRef) : (timestampsOf c).run.Prompt := by
  refine ⟨rfl, fun times => ?_⟩
  cases times <;> trivial

namespace Event

theorem prompt_locking (event : Event) {body : Program α} (h : body.Prompt) :
    (event.locking body).Prompt :=
  ⟨rfl, fun _ => h.andThen fun _ => ⟨rfl, fun _ => trivial⟩⟩

theorem prompt_currentPosition (q : QueueRef) : (currentPosition q).run.Prompt := by
  refine prompt_bind_request rfl fun profiling => ?_
  split
  · exact prompt_marker q _
  · refine prompt_bind_request rfl fun last => ?_
    split
    · exact prompt_marker q _
    · refine prompt_bind_request rfl fun visible => ?_
      split
      · trivial
      · exact prompt_marker q _

theorem prompt_choosePosition (q : QueueRef) (command : Option CommandRef) :
    (choosePosition q command).run.Prompt := by
  cases command with
  | none => exact prompt_currentPosition q
  | some c =>
    refine prompt_bind_request rfl fun owner => ?_
    refine prompt_bind_request rfl fun target => ?_
    split <;> trivial

theorem prompt_addMarker (event : Event) (q : QueueRef) (command : Option CommandRef)
    (recorded : Bool) : (event.addMarker q command recorded).run.Prompt := by
  apply prompt_locking
  refine prompt_bind (prompt_choosePosition q command) fun position => ?_
  refine prompt_bind_request rfl fun current => ?_
  refine prompt_bind_request rfl fun target => ?_
  split
  · exact prompt_log _
  · exact prompt_bind_request rfl fun _ => prompt_log _

theorem prompt_isRecorded (event : Event) : event.isRecorded.Prompt :=
  prompt_locking event ⟨rfl, fun _ => trivial⟩

theorem prompt_position? (event : Event) : event.position?.Prompt :=
  prompt_locking event ⟨rfl, fun _ => trivial⟩

theorem prompt_query (event : Event) : event.query.Prompt := by
  apply prompt_locking
  refine prompt_request_andThen rfl fun binding => ?_
  split
  · trivial
  · exact (prompt_isReady _).andThen fun _ => trivial

theorem prompt_streamWait (event : Event) (q : QueueRef) : (event.streamWait q).run.Prompt := by
  apply prompt_locking
  refine prompt_bind_request rfl fun binding => ?_
  split
  · trivial
  · refine prompt_bind_request rfl fun owner => ?_
    refine prompt_bind_request rfl fun target => ?_
    split
    · trivial
    · refine prompt_bind_request rfl fun able => ?_
      split
      · trivial
      · refine prompt_bind_request rfl fun profiling => ?_
        exact prompt_bind (prompt_marker q _) fun _ => prompt_log _

theorem prompt_create (flags : EventFlags) : (create flags).run.Prompt :=
  prompt_bind (prompt_check _) fun _ => ⟨rfl, fun _ => trivial⟩

theorem prompt_nanosToSelf (event : Event) : event.nanosToSelf.run.Prompt := by
  apply prompt_locking
  refine prompt_bind_request rfl fun binding => ?_
  split
  · trivial
  · split
    · trivial
    · refine prompt_bind (prompt_isReady _).lift fun ready => ?_
      split <;> trivial

/-- Who waits for an event waits when it has given back the event. -/
theorem waitsLast_synchronize (event : Event) : event.synchronize.WaitsLast := by
  apply (prompt_position? event).andThen_waitsLast
  intro position
  cases position with
  | none => trivial
  | some c => exact fun _ => ⟨trivial, fun _ => ⟨_, rfl⟩⟩

end Event

namespace Table

theorem prompt_create (table : TableRef) (raw : UInt32) : (create table raw).run.Prompt := by
  refine prompt_bind (prompt_check _) fun flags => ?_
  refine prompt_bind (Event.prompt_create flags) fun event => ?_
  refine prompt_bind_request rfl fun handle => ?_
  split
  · trivial
  · exact prompt_bind_request rfl fun _ => trivial

theorem prompt_destroy (table : TableRef) (handle : EventHandle) :
    (destroy table handle).run.Prompt := by
  refine prompt_bind_request rfl fun found => ?_
  split
  · exact prompt_log _
  · trivial

theorem prompt_get (table : TableRef) (handle : EventHandle) : (get table handle).run.Prompt := by
  refine prompt_bind_request rfl fun found => ?_
  split <;> trivial

theorem prompt_record (table : TableRef) (handle : EventHandle) (q : QueueRef) :
    (record table handle q).run.Prompt := by
  refine prompt_bind_request rfl fun target => ?_
  refine prompt_bind_request rfl fun _ => ?_
  exact prompt_bind (prompt_get table handle) fun event => event.prompt_addMarker q none true

theorem prompt_query (table : TableRef) (handle : EventHandle) :
    (query table handle).run.Prompt :=
  prompt_bind (prompt_get table handle) fun event => event.prompt_query.lift

theorem prompt_streamWait (table : TableRef) (handle : EventHandle) (q : QueueRef) :
    (streamWait table handle q).run.Prompt := by
  refine prompt_bind_request rfl fun target => ?_
  refine prompt_bind_request rfl fun _ => ?_
  exact prompt_bind (prompt_get table handle) fun event => event.prompt_streamWait q

/-- Who waits for an event of a table waits when it has given back the event. -/
theorem waitsLast_synchronize (table : TableRef) (handle : EventHandle) :
    (synchronize table handle).run.WaitsLast := by
  refine fun _ => ⟨?_, fun hawaits => absurd rfl hawaits⟩
  apply (prompt_get table handle).andThen_waitsLast
  intro found
  cases found with
  | error failure => trivial
  | ok event => exact event.waitsLast_synchronize.lift

end Table

/-! ## Calls -/

namespace Host

/-- The calls that may wait for a command. -/
def Call.mayWait : Call → Bool
  | .finish _ | .await _ | .synchronize _ | .elapsedTime .. | .tableSynchronize ..
  | .tableElapsedTime .. => true
  | _ => false

def Call.measures : Call → Bool
  | .elapsedTime .. | .tableElapsedTime .. => true
  | _ => false

theorem Call.prompt_enter {call : Call} (h : call.mayWait = false) (system : System World) :
    (call.enter system).1.Prompt := by
  cases call with
  | finish | await | synchronize | elapsedTime | tableSynchronize | tableElapsedTime => cases h
  | newQueue | cloneQueue | dropQueue | setPaused | shutdown | enqueueWork | enqueueMarker
  | newTable => trivial
  | newEvent flags => exact Event.prompt_create flags
  | addMarker event q command recorded => exact event.prompt_addMarker q command recorded
  | isRecorded event => exact event.prompt_isRecorded
  | position? event => exact event.prompt_position?
  | query event => exact event.prompt_query
  | streamWait event q => exact event.prompt_streamWait q
  | tableCreate table raw => exact Table.prompt_create table raw
  | tableCreateDefault table => exact Table.prompt_create table EventFlags.empty.bits
  | tableDestroy table handle => exact Table.prompt_destroy table handle
  | tableGet table handle => exact Table.prompt_get table handle
  | tableRecord table handle q => exact Table.prompt_record table handle q
  | tableQuery table handle => exact Table.prompt_query table handle
  | tableStreamWait table handle q => exact Table.prompt_streamWait table handle q
  | display | tableSize | tableIsEmpty => exact ⟨rfl, fun _ => trivial⟩

/-- Unless it measures, a call waits for a command as the last thing it does. -/
theorem Call.waitsLast_enter {call : Call} (h : call.measures = false) (system : System World) :
    (call.enter system).1.WaitsLast := by
  cases hwaits : call.mayWait with
  | false => exact (Call.prompt_enter hwaits system).waitsLast
  | true =>
    cases call with
    | elapsedTime | tableElapsedTime => cases h
    | finish q =>
      show (awaitBarrier (system.engine.enqueueBarrier q).value).WaitsLast
      cases (system.engine.enqueueBarrier q).value with
      | error failure => trivial
      | ok c => exact fun _ => ⟨trivial, fun _ => ⟨_, rfl⟩⟩
    | await c => exact fun _ => ⟨trivial, fun _ => ⟨_, rfl⟩⟩
    | synchronize event => exact event.waitsLast_synchronize
    | tableSynchronize table handle => exact Table.waitsLast_synchronize table handle
    | _ => cases hwaits

end Host

end SyncPoint
