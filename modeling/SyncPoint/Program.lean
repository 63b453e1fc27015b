import SyncPoint.Log

/-!
# Operations as programs

An operation is written once, as a program that asks its surroundings one request at a time and
goes on with the answer.  Running it alone against a state, running several in turns on shared
state, and listing the requests it makes against answers of every kind are then readings of one
definition.
-/

namespace SyncPoint

/-- What an operation asks of its surroundings. -/
inductive Request
  | engine (request : EngineRequest)
  | newEvent (flags : EventFlags)
  /-- The lock of an event; the asking thread waits while another holds it. -/
  | lock (event : Event)
  | unlock (event : Event)
  | binding (event : Event)
  /-- What the event is bound to, unless a thread holds its lock. -/
  | peek (event : Event)
  | bind (event : Event) (binding : Binding)
  /-- Puts an event into a table, under the next number, if there is room. -/
  | register (table : TableRef) (event : Event)
  /-- Takes an event out of a table; tells whether it was there. -/
  | unregister (table : TableRef) (handle : EventHandle)
  | find (table : TableRef) (handle : EventHandle)
  /-- How many events a table holds. -/
  | size (table : TableRef)
  | log (entry : LogEntry)
  deriving DecidableEq, Repr

/-- What the surroundings answer. -/
@[reducible] def Request.Answer : Request → Type
  | .engine request => request.Answer
  | .newEvent _ => Event
  | .lock _ => Unit
  | .unlock _ => Unit
  | .binding _ => Binding
  | .peek _ => Option Binding
  | .bind .. => Unit
  | .register .. => Option EventHandle
  | .unregister .. => Bool
  | .find .. => Option Event
  | .size _ => Nat
  | .log _ => Unit

/-- An operation with result `α`: it is done, or it asks and goes on with the answer. -/
inductive Program (α : Type)
  | done (value : α)
  | ask (request : Request) (next : request.Answer → Program α)

namespace Program

variable {α β γ : Type}

/-- Goes on with another program when the first is done. -/
def andThen : Program α → (α → Program β) → Program β
  | .done value, next => next value
  | .ask request rest, next => .ask request fun answer => (rest answer).andThen next

instance : Monad Program where
  pure := .done
  bind := andThen

@[simp] theorem pure_eq (value : α) : (pure value : Program α) = .done value := rfl

@[simp] theorem bind_eq (program : Program α) (next : α → Program β) :
    program >>= next = program.andThen next := rfl

@[simp] theorem done_andThen (value : α) (next : α → Program β) :
    (done value).andThen next = next value := rfl

@[simp] theorem ask_andThen (request : Request) (rest : request.Answer → Program α)
    (next : α → Program β) :
    (ask request rest).andThen next = .ask request fun answer => (rest answer).andThen next := rfl

theorem andThen_done (program : Program α) : program.andThen .done = program := by
  induction program with
  | done value => rfl
  | ask request rest ih => simp [ih]

theorem andThen_assoc (program : Program α) (next : α → Program β) (last : β → Program γ) :
    (program.andThen next).andThen last = program.andThen fun value => (next value).andThen last := by
  induction program with
  | done value => rfl
  | ask request rest ih => simp [ih]

instance : LawfulMonad Program :=
  LawfulMonad.mk' Program andThen_done (fun _ _ => rfl) andThen_assoc

def request (request : Request) : Program request.Answer := .ask request .done

def engine (request : EngineRequest) : Program request.Answer :=
  Program.request (.engine request)

def log (entry : LogEntry) : Program Unit := Program.request (.log entry)

/-- Runs a program against a state, where `serve` answers each request and changes the state; a
request that is never answered leaves the whole run without a result. -/
def run {σ : Type} (serve : (request : Request) → σ → Option (request.Answer × σ)) :
    Program α → σ → Option (α × σ)
  | .done value, state => some (value, state)
  | .ask request next, state =>
    match serve request state with
    | none => none
    | some (answer, state) => (next answer).run serve state

theorem run_andThen {σ : Type} (serve : (request : Request) → σ → Option (request.Answer × σ))
    (program : Program α) (next : α → Program β) (state : σ) :
    (program.andThen next).run serve state =
      (program.run serve state).bind fun result => (next result.1).run serve result.2 := by
  induction program generalizing state with
  | done value => rfl
  | ask request rest ih =>
    simp only [ask_andThen, run]
    cases serve request state with
    | none => rfl
    | some reply => exact ih reply.1 reply.2

end Program

/-- A program that may fail. -/
abbrev Operation (α : Type) := ExceptT Failure Program α

/-- Fails as a check has failed, or goes on with its result. -/
def Operation.check {α : Type} (result : Except Failure α) : Operation α :=
  ExceptT.mk (pure result)

end SyncPoint
