import SyncPoint.Table

/-!
# Running operations

`System` is the state that operations work on: an engine's own state, one cell per event, the
tables, and the log.  `System.serve` answers one request of one thread, given how the engine
answers; a request may go unanswered for the time being, because a lock is held or because an engine
has not completed a command.
-/

namespace SyncPoint

/-- Names a thread. -/
abbrev ThreadId := Nat

/-- An engine's answer, with the state after it and what the engine wrote to the log. -/
structure Reply (σ α : Type) where
  value : α
  state : σ
  log : List LogEntry := []

/-- How an engine with states `σ` answers requests. -/
structure Engine (σ : Type) where
  serve : (request : EngineRequest) → σ → Option (Reply σ request.Answer)

/-- What changes about an event: its binding, and the thread that holds its lock. -/
structure EventCell where
  binding : Binding := .unbound
  holder : Option ThreadId := none
  deriving DecidableEq, Repr

/-- The state that operations work on. Events are found by ordinal. -/
structure System (σ : Type) where
  engine : σ
  cells : List EventCell := []
  tables : List Table := []
  log : List LogEntry := []

namespace System

variable {σ α : Type}

def cell (system : System σ) (event : Event) : EventCell :=
  system.cells.getD event.ordinal {}

def binding (system : System σ) (event : Event) : Binding :=
  (system.cell event).binding

def setCell (system : System σ) (event : Event) (cell : EventCell) : System σ :=
  { system with cells := system.cells.set event.ordinal cell }

theorem cell_setCell_self {system : System σ} {event : Event}
    (h : event.ordinal < system.cells.length) (cell : EventCell) :
    (system.setCell event cell).cell event = cell := by
  simp [System.cell, setCell, h]

theorem cell_setCell_of_ne {event other : Event} (h : other.ordinal ≠ event.ordinal)
    (system : System σ) (cell : EventCell) :
    (system.setCell event cell).cell other = system.cell other := by
  simp [System.cell, setCell, List.getElem?_set_ne h.symm]

@[simp] theorem engine_setCell (system : System σ) (event : Event) (cell : EventCell) :
    (system.setCell event cell).engine = system.engine := rfl

@[simp] theorem tables_setCell (system : System σ) (event : Event) (cell : EventCell) :
    (system.setCell event cell).tables = system.tables := rfl

/-- A table; a table that does not exist holds nothing. -/
def table (system : System σ) (ref : TableRef) : Table :=
  system.tables.getD ref { limit := some 0 }

def setTable (system : System σ) (ref : TableRef) (table : Table) : System σ :=
  { system with tables := system.tables.set ref table }

/-- Answers one request of a thread. -/
def serve (engine : Engine σ) (thread : ThreadId) :
    (request : Request) → System σ → Option (request.Answer × System σ)
  | .engine request, system =>
    (engine.serve request system.engine).map fun reply =>
      (reply.value, { system with engine := reply.state, log := system.log ++ reply.log })
  | .newEvent flags, system =>
    some (⟨system.cells.length, flags⟩, { system with cells := system.cells ++ [{}] })
  | .lock event, system =>
    match (system.cell event).holder with
    | none => some ((), system.setCell event { system.cell event with holder := some thread })
    | some _ => none
  | .unlock event, system =>
    some ((), system.setCell event { system.cell event with holder := none })
  | .binding event, system => some (system.binding event, system)
  | .peek event, system =>
    match (system.cell event).holder with
    | none => some (some (system.binding event), system)
    | some _ => some (none, system)
  | .bind event binding, system =>
    some ((), system.setCell event { system.cell event with binding := binding })
  | .register ref event, system =>
    match (system.table ref).insert? event with
    | none => some (none, system)
    | some (handle, table) => some (some handle, system.setTable ref table)
  | .unregister ref handle, system =>
    match (system.table ref).find? handle with
    | none => some (false, system)
    | some _ => some (true, system.setTable ref ((system.table ref).erase handle))
  | .find ref handle, system => some ((system.table ref).find? handle, system)
  | .size ref, system => some ((system.table ref).size, system)
  | .log entry, system => some ((), { system with log := system.log ++ [entry] })

/-- Runs a program on its own. There is no result if a request is never answered. -/
def run (engine : Engine σ) (program : Program α) (system : System σ) : Option (α × System σ) :=
  program.run (serve engine 0) system

end System

end SyncPoint
