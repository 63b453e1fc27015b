import SyncPoint.Proofs.Threads.Basic

/-!
# Access through handles shadows access through objects

An access looks its handles up first (`Seeks`), and from then on it is the operation on the objects
but for what it writes to the log (`Shadows`): see `Access.direct_or_seeks`.  No answer depends on
the log (`System.Alike.serve`).
-/

namespace SyncPoint

variable {σ α β : Type}

/-- The same system, but for what is in its log. -/
def System.Alike (a b : System σ) : Prop := ∃ log, b = { a with log := log }

namespace System.Alike

variable {a b c : System σ}

theorem refl (a : System σ) : a.Alike a := ⟨a.log, rfl⟩

theorem symm (h : a.Alike b) : b.Alike a := by
  obtain ⟨log, rfl⟩ := h
  exact ⟨a.log, rfl⟩

theorem trans (h : a.Alike b) (h' : b.Alike c) : a.Alike c := by
  obtain ⟨log, rfl⟩ := h
  obtain ⟨log', rfl⟩ := h'
  exact ⟨log', rfl⟩

/-- No answer depends on the log. -/
theorem serve {engine : Engine σ} {t : ThreadId} {request : Request} {answer : request.Answer}
    {a' : System σ} (h : a.Alike b)
    (hserve : System.serve engine t request a = some (answer, a')) :
    ∃ b', System.serve engine t request b = some (answer, b') ∧ a'.Alike b' := by
  obtain ⟨log, rfl⟩ := h
  cases request with
  | engine request =>
    obtain ⟨reply, hreply, heq⟩ := Option.map_eq_some_iff.1 hserve
    cases heq
    refine ⟨_, Option.map_eq_some_iff.2 ⟨reply, hreply, rfl⟩, ?_⟩
    exact ⟨log ++ reply.log, rfl⟩
  | newEvent | unlock | binding | bind | find | size =>
    cases hserve
    exact ⟨_, rfl, log, rfl⟩
  | log entry =>
    cases hserve
    exact ⟨_, rfl, log ++ [entry], rfl⟩
  | lock event | peek event =>
    have hcell : ({ a with log := log } : System σ).cell event = a.cell event := rfl
    rw [System.serve] at hserve ⊢
    rw [hcell]
    cases hholder : (a.cell event).holder <;> rw [hholder] at hserve <;> cases hserve <;>
      exact ⟨_, rfl, log, rfl⟩
  | register ref event =>
    have htable : ({ a with log := log } : System σ).table ref = a.table ref := rfl
    rw [System.serve] at hserve ⊢
    rw [htable]
    cases hinsert : (a.table ref).insert? event <;> rw [hinsert] at hserve <;> cases hserve <;>
      exact ⟨_, rfl, log, rfl⟩
  | unregister ref handle =>
    have htable : ({ a with log := log } : System σ).table ref = a.table ref := rfl
    rw [System.serve] at hserve ⊢
    rw [htable]
    cases hfind : (a.table ref).find? handle <;> rw [hfind] at hserve <;> cases hserve <;>
      exact ⟨_, rfl, log, rfl⟩

end System.Alike

namespace Threads

/-- The first program does what the second one does, and writes to the log besides. -/
inductive Shadows : Program α → Program α → Prop
  | done (value : α) : Shadows (.done value) (.done value)
  | ask (request : Request) {next next' : request.Answer → Program α}
      (h : ∀ answer, Shadows (next answer) (next' answer)) :
      Shadows (.ask request next) (.ask request next')
  | log (entry : LogEntry) {next : Unit → Program α} {program : Program α}
      (h : Shadows (next ()) program) : Shadows (.ask (.log entry) next) program

namespace Shadows

theorem refl (program : Program α) : Shadows program program := by
  induction program with
  | done value => exact .done value
  | ask request next ih => exact .ask request ih

/-- What only writes to the log may follow. -/
theorem andThen_self {next : α → Program α} (hnext : ∀ value, Shadows (next value) (.done value))
    (program : Program α) : Shadows (program.andThen next) program := by
  induction program with
  | done value => exact hnext value
  | ask request rest ih => exact .ask request ih

theorem eq_done {value : α} {program : Program α} (h : Shadows (.done value) program) :
    program = .done value := by
  cases h
  rfl

end Shadows

/-- The programs are done with the same result, or ask the same, and the one shadows the other
then. -/
inductive Level : Program α → Program α → Prop
  | done (value : α) : Level (.done value) (.done value)
  | ask (request : Request) {next next' : request.Answer → Program α}
      (h : ∀ answer, Shadows (next answer) (next' answer)) :
      Level (.ask request next) (.ask request next')

theorem Level.shadows {program program' : Program α} (h : Level program program') :
    Shadows program program' := by
  cases h with
  | done value => exact .done value
  | ask request h => exact .ask request h

/-- A thread writes to the log. -/
def writes (t : ThreadId) (entries : List LogEntry) : History σ :=
  entries.map fun entry => .ask t (.log entry) ()

/-- The thread can always get to where the program stands that it shadows, and changes nothing but
the log before. -/
theorem Shadows.exists_level {engine : Engine σ} {moves : σ → σ → Prop} {s : State σ} {t : ThreadId}
    {use : Use α} {rest program : Program (Except Failure α)} (h : Shadows rest program)
    (htask : s.tasks t = some ⟨α, use, rest⟩) :
    ∃ entries rest' log, Level rest' program ∧ Run engine moves s (writes t entries)
      (s.withTask t (some ⟨α, use, rest'⟩) { s.system with log := log }) := by
  induction h generalizing s with
  | done value =>
    refine ⟨[], _, s.system.log, .done value, ?_⟩
    rw [s.withTask_self htask]
    exact .refl
  | ask request hnext =>
    refine ⟨[], _, s.system.log, .ask request hnext, ?_⟩
    rw [s.withTask_self htask]
    exact .refl
  | @log entry next program _ ih =>
    have hstep : Step engine moves s (.ask t (.log entry) ()) (s.withTask t (some ⟨α, use, next ()⟩)
        { s.system with log := s.system.log ++ [entry] }) := .ask htask rfl
    obtain ⟨entries, rest', log, hlevel, hrun⟩ := ih (State.tasks_withTask_self s t _ _)
    rw [State.withTask_withTask] at hrun
    exact ⟨entry :: entries, rest', log, hlevel, hstep.run.trans hrun⟩

/-- What references mean, as far as handles were looked up. -/
inductive Known (found : List (Reference × Event)) : Reference → Event → Prop
  | object (event : Event) : Known found (.object event) event
  | found {x : Reference} {event : Event} (h : (x, event) ∈ found) : Known found x event

/-- What is left of an access before all its handles were looked up.  A handle that means nothing
ends it, and after the last one the operation on the objects follows. -/
inductive Seeks (a : Access Reference α) :
    List (Reference × Event) → Program (Except Failure α) → Prop
  | log {found : List (Reference × Event)} (entry : LogEntry)
      {next : Unit → Program (Except Failure α)} (hnext : Seeks a found (next ())) :
      Seeks a found (.ask (.log entry) next)
  | identify {found : List (Reference × Event)} (queue : QueueRef)
      {next : QueueId → Program (Except Failure α)} (hnext : ∀ id, Seeks a found (next id)) :
      Seeks a found (.ask (.engine (.queueId queue)) next)
  | look {found : List (Reference × Event)} {table : TableRef} {handle : EventHandle}
      {next : Option Event → Program (Except Failure α)}
      (hhandle : .handle table handle ∈ a.references)
      (hmiss : next none = .done (.error .unknownEvent))
      (hnext : ∀ event, Seeks a ((.handle table handle, event) :: found) (next (some event))) :
      Seeks a found (.ask (.find table handle) next)
  | last {found : List (Reference × Event)} {table : TableRef} {handle : EventHandle}
      {next : Option Event → Program (Except Failure α)}
      (hhandle : .handle table handle ∈ a.references)
      (hmiss : next none = .done (.error .unknownEvent))
      (hnext : ∀ event, ∃ b : Access Event α,
        a.Resolves (Known ((.handle table handle, event) :: found)) b ∧
          Shadows (next (some event)) b.operation.run) :
      Seeks a found (.ask (.find table handle) next)

/-- What was found last is known. -/
theorem known_head {x : Reference} {event : Event} {found : List (Reference × Event)} :
    Known ((x, event) :: found) x event :=
  .found List.mem_cons_self

/-- The time between two events that are both meant by handles. -/
theorem seeks_elapsedTime (table other : TableRef) (number number' : EventHandle) :
    Seeks (.elapsedTime (.handle table number) (.handle other number')) []
      (Access.elapsedTime (.handle table number) (.handle other number')).call.run := by
  have hfirst : ∀ {start stop : Event}, Known [(.handle other number', stop),
      (.handle table number, start)] (.handle table number) start :=
    .found (List.mem_cons_of_mem _ List.mem_cons_self)
  rw [Access.call]
  split
  next htable =>
    subst other
    refine .look (by simp [Access.references]) rfl fun start =>
      .last (by simp [Access.references]) rfl fun stop => ?_
    refine ⟨.elapsedTime start stop, .elapsedTime hfirst known_head, ?_⟩
    -- what the table does besides is to write the result to the log
    refine Shadows.andThen_self (fun value => ?_) (start.elapsedTime stop).run
    cases value with
    | error failure => exact .done _
    | ok millis => exact .log _ (.done _)
  next =>
    refine .look (by simp [Access.references]) rfl fun start =>
      .last (by simp [Access.references]) rfl fun stop => ?_
    exact ⟨.elapsedTime start stop, .elapsedTime hfirst known_head, .refl _⟩

/-- An access is one to objects, or looks its handles up. -/
theorem Access.direct_or_seeks (a : Access Reference α) :
    (∃ b : Access Event α, a = b.direct) ∨ Seeks a [] a.call.run := by
  cases a with
  | record x queue =>
    cases x with
    | object event => exact .inl ⟨.record event queue, rfl⟩
    | handle table handle =>
      refine .inr (.identify queue fun id => .log _ (.last (by simp [references]) rfl ?_))
      exact fun event => ⟨.record event queue, .record queue known_head, .refl _⟩
  | query x =>
    cases x with
    | object event => exact .inl ⟨.query event, rfl⟩
    | handle table handle =>
      refine .inr (.last (by simp [references]) rfl ?_)
      exact fun event => ⟨.query event, .query known_head, .refl _⟩
  | synchronize x =>
    cases x with
    | object event => exact .inl ⟨.synchronize event, rfl⟩
    | handle table handle =>
      refine .inr (.log _ (.last (by simp [references]) rfl ?_))
      exact fun event => ⟨.synchronize event, .synchronize known_head, .refl _⟩
  | streamWait x queue =>
    cases x with
    | object event => exact .inl ⟨.streamWait event queue, rfl⟩
    | handle table handle =>
      refine .inr (.identify queue fun id => .log _ (.last (by simp [references]) rfl ?_))
      exact fun event => ⟨.streamWait event queue, .streamWait queue known_head, .refl _⟩
  | elapsedTime x y =>
    cases x with
    | object start =>
      cases y with
      | object stop => exact .inl ⟨.elapsedTime start stop, rfl⟩
      | handle table handle =>
        refine .inr (.last (by simp [references]) rfl ?_)
        exact fun stop => ⟨.elapsedTime start stop, .elapsedTime (.object start) known_head, .refl _⟩
    | handle table number =>
      cases y with
      | object stop =>
        refine .inr (.last (by simp [references]) rfl ?_)
        exact fun start => ⟨.elapsedTime start stop, .elapsedTime known_head (.object stop), .refl _⟩
      | handle other number' => exact .inr (seeks_elapsedTime table other number number')

end Threads

end SyncPoint
