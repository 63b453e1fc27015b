import SyncPoint.Scenario.Session

/-!
# Steps on events and tables

These are the steps that do not depend on the engine.
-/

namespace SyncPoint.Scenario

/-- The steps that every engine takes part in. Events, queues, tables and handles
are slots, commands are labels. -/
inductive EventStep
  | create (flags : EventFlags)
  | drop (e : Nat)
  | record (e q : Nat)
  | attach (e q c : Nat)
  | addMarker (e q : Nat) (c : Option Nat) (recorded : Bool)
  | query (e : Nat)
  | synchronize (e : Nat)
  | elapsed (a b : Nat)
  | elapsedThreads (a b n : Nat)
  | streamWait (e q : Nat)
  | inspect (e : Nat)
  | display (e : Nat)
  | table (limit : Option Nat)
  | tableCreate (t : Nat) (flags : Option UInt32)
  | tableDestroy (t h : Nat)
  | tableRecord (t h q : Nat)
  | tableQuery (t h : Nat)
  | tableSynchronize (t h : Nat)
  | tableStreamWait (t h q : Nat)
  | tableGet (t h : Nat)
  | tableElapsed (t a b : Nat)
  | tableSize (t : Nat)
  | tableDisplay (t : Nat)
  | tableChurn (t n : Nat)
  deriving DecidableEq, Repr

namespace Session

variable {σ : Type}

/-- Measures `n` times in one direction and collects the different answers. -/
def measureTimes (rules : Rules σ) (a b : Event) :
    Nat → List Measurement → Session σ → List Measurement × Session σ
  | 0, seen, session => (seen, session)
  | n + 1, seen, session =>
    let (result, session) := session.measure rules a b (a.elapsedTime b)
    measureTimes rules a b n (if seen.contains result then seen else seen ++ [result]) session

/-- Creates and destroys `n` events and collects the handles. -/
def churn (rules : Rules σ) (t : TableRef) :
    Nat → List EventHandle → Session σ → List EventHandle × Session σ
  | 0, seen, session => (seen, session)
  | n + 1, seen, session =>
    match session.system.run rules.engine (Table.createDefault t).run with
    | none => (seen, session)
    | some (.error _, system) => churn rules t n seen { session with system := system }
    | some (.ok handle, system) =>
      match system.run rules.engine (Table.destroy t handle).run with
      | none => (seen, session)
      | some (_, system) =>
        churn rules t n (if seen.contains handle then seen else seen ++ [handle])
          { session with system := system }

/-- Does one step. There is no answer if the step names a slot that is not there or is empty. -/
def eventStep (session : Session σ) (rules : Rules σ) : EventStep → Option (Answer × Session σ)
  | .create flags =>
    session.attempt rules (Event.create flags) fun event session => session.addEvent event
  | .drop e => do
    let _ ← session.event? e
    return (.ok, { session with events := session.events.set e none })
  | .record e q => do
    return session.attemptUnit rules ((← session.event? e).record (← session.queue? q))
  | .attach e q c => do
    return session.attemptUnit rules
      ((← session.event? e).attachCommand (← session.queue? q) (← session.command? rules c))
  | .addMarker e q c recorded => do
    return session.attemptUnit rules
      ((← session.event? e).addMarker (← session.queue? q)
        (← c.mapM (session.command? rules)) recorded)
  | .query e => do
    return session.perform rules (← session.event? e).query fun status session =>
      (.eventStatus status, session)
  | .synchronize e => do
    return session.perform rules (← session.event? e).synchronize fun _ session => (.ok, session)
  | .elapsed a b => do
    let (a, b) := (← session.event? a, ← session.event? b)
    return session.measureStep rules a b (a.elapsedTime b)
  | .elapsedThreads a b n => do
    let (a, b) := (← session.event? a, ← session.event? b)
    let (forward, after) := measureTimes rules a b (2 * n) [] session
    let (backward, after) := measureTimes rules b a (2 * n) [] after
    return session.elsewhere (.bothWays forward backward, after)
  | .streamWait e q => do
    return session.attemptUnit rules ((← session.event? e).streamWait (← session.queue? q))
  | .inspect e => do
    let event ← session.event? e
    return session.perform rules event.isRecorded fun recorded session =>
      session.perform rules event.position? fun position session =>
        (.event event.flags recorded position, session)
  | .display e => do
    return session.perform rules (← session.event? e).display fun text session =>
      (.text text, session)
  | .table limit =>
    let system := session.system
    let table : Table := { limit := limit }
    some (.made .table system.tables.length,
      { session with system := { system with tables := system.tables ++ [table] } })
  | .tableCreate t flags => do
    let t ← session.table? t
    let operation := match flags with
      | none => Table.createDefault t
      | some raw => Table.create t raw
    return session.attempt rules operation fun handle session =>
      (.madeHandle session.handles.length handle,
        { session with handles := session.handles ++ [handle] })
  | .tableDestroy t h => do
    return session.attemptUnit rules (Table.destroy (← session.table? t) (← session.handles[h]?))
  | .tableRecord t h q => do
    return session.attemptUnit rules
      (Table.record (← session.table? t) (← session.handles[h]?) (← session.queue? q))
  | .tableQuery t h => do
    return session.attempt rules (Table.query (← session.table? t) (← session.handles[h]?))
      fun status session => (.eventStatus status, session)
  | .tableSynchronize t h => do
    return session.attemptUnit rules
      (Table.synchronize (← session.table? t) (← session.handles[h]?))
  | .tableStreamWait t h q => do
    return session.attemptUnit rules
      (Table.streamWait (← session.table? t) (← session.handles[h]?) (← session.queue? q))
  | .tableGet t h => do
    return session.attempt rules (Table.get (← session.table? t) (← session.handles[h]?))
      fun event session => session.addEvent event
  | .tableElapsed t a b => do
    let t ← session.table? t
    let (a, b) := (← session.handles[a]?, ← session.handles[b]?)
    let operation := Table.elapsedTime t a b
    let table := session.system.table t
    match table.find? a, table.find? b with
    | some start, some stop => return session.measureStep rules start stop operation
    | _, _ =>
      return session.attempt rules operation fun value session =>
        (.measurement (.millis value), session)
  | .tableSize t => do
    return session.perform rules (Table.count (← session.table? t)) fun size session =>
      (.size size, session)
  | .tableDisplay t => do
    return (.text (session.system.table (← session.table? t)).describe, session)
  | .tableChurn t n => do
    let (handles, after) := churn rules (← session.table? t) (4 * n) [] session
    return session.elsewhere (.distinct handles.length, after)

end Session

/-- What a step shows besides its answer. -/
structure View where
  /-- The binding of each event slot; nothing for an empty slot. -/
  bindings : List (Option Binding)
  sizes : List Nat
  log : List LogEntry
  deriving DecidableEq, Repr

/-- What is seen of a session after a step that began with the session `before`. -/
def Session.view {σ : Type} (before session : Session σ) : View where
  bindings := session.events.map fun slot => slot.map session.system.binding
  sizes := session.system.tables.map Table.size
  log := session.system.log.drop before.system.log.length

/-- Does steps in order and reports on each from the sessions before and after it. There is no
result if a step cannot be done. -/
def Session.run {σ Step Report : Type} (step : Session σ → Step → Option (Answer × Session σ))
    (report : Session σ → Answer → Session σ → Report) (session : Session σ) :
    List Step → Option (List Report)
  | [] => some []
  | s :: rest => do
    let (answer, after) ← step session s
    return report session answer after :: (← Session.run step report after rest)

end SyncPoint.Scenario
