import SyncPoint.Event.Measuring

/-!
# Event tables

A table owns events for callers that mean them by number.  Numbers start at one and are never used
twice, so the number of a destroyed event means nothing for ever.  A table may have a limit on the
events it holds at one time.  Nothing else keeps an event out: the memory for one more event is
taken to be there, and so are the numbers, of which a table has one for every natural number.

The operations below are those of the events themselves, behind a look-up.
-/

namespace SyncPoint

/-- The events of a table by number, the number that comes next, and the limit. -/
structure Table where
  limit : Option Nat := none
  next : Nat := 1
  events : List (EventHandle × Event) := []
  deriving Repr

namespace Table

def size (table : Table) : Nat := table.events.length

/-- Whether the table holds as many events as it may. -/
def isFull (table : Table) : Bool :=
  match table.limit with
  | none => false
  | some limit => limit ≤ table.size

/-- The event of a handle. -/
def find? (table : Table) (handle : EventHandle) : Option Event :=
  table.events.lookup handle

def nextHandle (table : Table) : EventHandle := ⟨table.next⟩

/-- Puts an event in, if there is room. -/
def insert? (table : Table) (event : Event) : Option (EventHandle × Table) :=
  if table.isFull then none
  else
    some (table.nextHandle,
      { table with
        next := table.next + 1
        events := table.events ++ [(table.nextHandle, event)] })

def erase (table : Table) (handle : EventHandle) : Table :=
  { table with events := table.events.filter fun entry => entry.1 ≠ handle }

/-- Only a full table refuses an event. -/
theorem insert?_eq_none_iff (table : Table) (event : Event) :
    table.insert? event = none ↔ table.isFull = true := by
  cases h : table.isFull <;> simp [insert?, h]

/-- A look-up passes over the entries of other handles. -/
theorem lookup_cons_of_ne {handle number : EventHandle} (h : handle ≠ number) (event : Event)
    (rest : List (EventHandle × Event)) :
    ((number, event) :: rest).lookup handle = rest.lookup handle := by
  rw [List.lookup_cons, beq_false_of_ne h]

/-- Taking out one event leaves the others. -/
theorem find?_erase_of_ne (table : Table) {handle other : EventHandle} (h : other ≠ handle) :
    (table.erase handle).find? other = table.find? other := by
  simp only [erase, find?]
  induction table.events with
  | nil => rfl
  | cons entry rest ih =>
    obtain ⟨number, event⟩ := entry
    by_cases hn : number = handle
    · rw [List.filter_cons_of_neg (by simpa using hn), ih,
        lookup_cons_of_ne (fun heq => h (heq.trans hn))]
    · rw [List.filter_cons_of_pos (by simpa using hn)]
      by_cases ho : other = number
      · rw [ho, List.lookup_cons_self, List.lookup_cons_self]
      · rw [lookup_cons_of_ne ho, lookup_cons_of_ne ho, ih]

def describe (table : Table) : String :=
  let limit := match table.limit with
    | none => "None"
    | some n => "Some(" ++ toString n ++ ")"
  "EventTable \x7b len: " ++ toString table.size ++ ", max_events: " ++ limit ++ ", .. \x7d"

/-- Creates an event from a mask of flags and puts it in. The mask is looked at before the room
is, and an event that finds no room is constructed all the same. -/
def create (table : TableRef) (raw : UInt32) : Operation EventHandle := do
  let flags ← Operation.check (EventFlags.ofRaw raw)
  let event ← Event.create flags
  match ← Program.request (.register table event) with
  | none => throw .tableFull
  | some handle =>
    Program.log (.created handle flags)
    return handle

def createDefault (table : TableRef) : Operation EventHandle :=
  create table EventFlags.empty.bits

def destroy (table : TableRef) (handle : EventHandle) : Operation Unit := do
  if ← Program.request (.unregister table handle) then
    Program.log (.destroyed handle)
  else
    throw .unknownEvent

def get (table : TableRef) (handle : EventHandle) : Operation Event := do
  match ← Program.request (.find table handle) with
  | some event => return event
  | none => throw .unknownEvent

def record (table : TableRef) (handle : EventHandle) (queue : QueueRef) : Operation Unit := do
  Program.log (.record handle (← Program.engine (.queueId queue)))
  (← get table handle).record queue

def query (table : TableRef) (handle : EventHandle) : Operation EventStatus := do
  (← get table handle).query

def synchronize (table : TableRef) (handle : EventHandle) : Operation Unit := do
  Program.log (.synchronize handle)
  (← get table handle).synchronize

def streamWait (table : TableRef) (handle : EventHandle) (queue : QueueRef) : Operation Unit := do
  Program.log (.streamWait handle (← Program.engine (.queueId queue)))
  (← get table handle).streamWait queue

def elapsedTime (table : TableRef) (start stop : EventHandle) : Operation Single := do
  let startEvent ← get table start
  let stopEvent ← get table stop
  let millis ← startEvent.elapsedTime stopEvent
  Program.log (.elapsed start stop millis)
  return millis

def count (table : TableRef) : Program Nat := Program.request (.size table)

def isEmpty (table : TableRef) : Program Bool := do
  return (← count table) = 0

end Table

end SyncPoint
