import SyncPoint.Proofs.Machine.Promptness

/-!
# What an engine is asked

`Program.transcribe` runs a program and keeps what it asked of the engine, in order and with the
answers.  It is the run that `Program.run` makes (`Program.run_eq_transcribe`), and the engine gets
from its first state to its last one by answering just these requests
(`Program.replies_of_transcribe`).

Nothing is assumed of the engine: two equal requests may be answered differently, and any answer may
change its state.
-/

namespace SyncPoint

variable {σ α β : Type}

/-- A request to an engine and the answer to it. -/
structure Answered where
  request : EngineRequest
  answer : request.Answer

/-- The marker that was asked for, and its queue. -/
def Answered.marker? : Answered → Option (QueueRef × MarkerRequest CommandRef)
  | ⟨.enqueueMarker queue request, _⟩ => some (queue, request)
  | _ => none

/-- The markers among what an engine was asked. -/
def markersOf (asked : List Answered) : List (QueueRef × MarkerRequest CommandRef) :=
  asked.filterMap Answered.marker?

theorem markersOf_append (asked asked' : List Answered) :
    markersOf (asked ++ asked') = markersOf asked ++ markersOf asked' :=
  List.filterMap_append

namespace Engine

/-- The engine, asked in turn, gives these answers, writes these entries and ends in the last
state. -/
inductive Replies (engine : Engine σ) : σ → List Answered → List LogEntry → σ → Prop
  | silent (state : σ) : Replies engine state [] [] state
  | reply {request : EngineRequest} {state last : σ} {reply : Reply σ request.Answer}
      {asked : List Answered} {entries : List LogEntry}
      (hserve : engine.serve request state = some reply)
      (hrest : Replies engine reply.state asked entries last) :
      Replies engine state (⟨request, reply.value⟩ :: asked) (reply.log ++ entries) last

theorem Replies.append {engine : Engine σ} {state mid last : σ} {asked asked' : List Answered}
    {entries entries' : List LogEntry} (h : engine.Replies state asked entries mid)
    (h' : engine.Replies mid asked' entries' last) :
    engine.Replies state (asked ++ asked') (entries ++ entries') last := by
  induction h with
  | silent state => exact h'
  | reply hserve hrest ih =>
    rw [List.append_assoc]
    exact .reply hserve (ih h')

/-- Whatever the state, the engine answers every request that does not wait for a command. -/
def Answers (engine : Engine σ) : Prop :=
  ∀ request state, (Request.engine request).awaited? = none → (engine.serve request state).isSome

end Engine

/-- What a request adds to what the engine was asked. -/
def Request.answered : (request : Request) → request.Answer → List Answered
  | .engine request, answer => [⟨request, answer⟩]
  | _, _ => []

/-- A request that an engine answers without waiting, or an entry for the log. -/
def Request.Consults : Request → Prop
  | .engine request => (Request.engine request).awaited? = none
  | .log _ => True
  | _ => False

namespace Program

variable {engine : Engine σ} {t : ThreadId} {system system' : System σ} {asked : List Answered}
  {request : Request} {program : Program α} {next : α → Program β} {value : α} {last : β}

/-- Runs a program on its own and keeps what it asked of the engine. -/
def transcribe (engine : Engine σ) (t : ThreadId) :
    Program α → System σ → Option (List Answered × α × System σ)
  | .done value, system => some ([], value, system)
  | .ask request next, system =>
    (System.serve engine t request system).bind fun reply =>
      ((next reply.1).transcribe engine t reply.2).map fun rest =>
        (request.answered reply.1 ++ rest.1, rest.2)

theorem run_eq_transcribe (program : Program α) (system : System σ) :
    program.run (System.serve engine t) system =
      (program.transcribe engine t system).map (·.2) := by
  induction program generalizing system with
  | done value => rfl
  | ask request next ih =>
    simp only [run, transcribe]
    cases System.serve engine t request system with
    | none => rfl
    | some reply =>
      simp only [ih, Option.bind_some, Option.map_map]
      rfl

/-! ## Inversions -/

theorem transcribe_ask {next : request.Answer → Program α} :
    (ask request next).transcribe engine t system = some (asked, value, system') ↔
      ∃ reply rest, System.serve engine t request system = some reply ∧
        (next reply.1).transcribe engine t reply.2 = some (rest, value, system') ∧
        asked = request.answered reply.1 ++ rest := by
  simp only [transcribe, Option.bind_eq_some_iff, Option.map_eq_some_iff, Prod.mk.injEq]
  constructor
  · rintro ⟨reply, hserve, ⟨rest, value', last⟩, hrest, rfl, ⟨rfl, rfl⟩⟩
    exact ⟨reply, rest, hserve, hrest, rfl⟩
  · rintro ⟨reply, rest, hserve, hrest, rfl⟩
    exact ⟨reply, hserve, _, hrest, rfl, rfl⟩

theorem transcribe_andThen :
    (program.andThen next).transcribe engine t system = some (asked, last, system') ↔
      ∃ first value mid rest, program.transcribe engine t system = some (first, value, mid) ∧
        (next value).transcribe engine t mid = some (rest, last, system') ∧
        asked = first ++ rest := by
  induction program generalizing system asked with
  | done value =>
    constructor
    · intro h
      exact ⟨[], value, system, asked, rfl, h, rfl⟩
    · rintro ⟨first, value', mid, rest, hfirst, hrest, rfl⟩
      cases hfirst
      exact hrest
  | ask request ahead ih =>
    rw [ask_andThen, transcribe_ask]
    constructor
    · rintro ⟨reply, later, hserve, hlater, rfl⟩
      obtain ⟨first, value, mid, rest, hfirst, hrest, rfl⟩ := (ih reply.1).1 hlater
      exact ⟨_, value, mid, rest, transcribe_ask.2 ⟨reply, first, hserve, hfirst, rfl⟩, hrest,
        by rw [List.append_assoc]⟩
    · rintro ⟨begun, value, mid, rest, hbegun, hrest, rfl⟩
      obtain ⟨reply, first, hserve, hfirst, rfl⟩ := transcribe_ask.1 hbegun
      have hthen := (ih reply.1).2 ⟨first, value, mid, rest, hfirst, hrest, rfl⟩
      exact ⟨reply, first ++ rest, hserve, hthen, by rw [List.append_assoc]⟩

theorem replies_of_serve {reply : request.Answer × System σ}
    (h : System.serve engine t request system = some reply) :
    ∃ entries, engine.Replies system.engine (request.answered reply.1) entries reply.2.engine := by
  have hsilent : ∀ state, reply.2.engine = state → engine.Replies state [] [] reply.2.engine := by
    rintro state rfl
    exact .silent _
  cases request with
  | engine request =>
    simp only [System.serve, Option.map_eq_some_iff] at h
    obtain ⟨answer, hserve, rfl⟩ := h
    exact ⟨_, .reply hserve (.silent _)⟩
  | lock event | peek event | register table event | unregister table handle =>
    simp only [System.serve] at h
    split at h <;> cases h <;> exact ⟨[], hsilent _ rfl⟩
  | newEvent | unlock | binding | bind | find | size | log =>
    cases h
    exact ⟨[], hsilent _ rfl⟩

/-- The engine gets from its first state to its last one by answering what it is asked. -/
theorem replies_of_transcribe
    (h : program.transcribe engine t system = some (asked, value, system')) :
    ∃ entries, engine.Replies system.engine asked entries system'.engine := by
  induction program generalizing system asked with
  | done value =>
    cases h
    exact ⟨[], .silent _⟩
  | ask request next ih =>
    obtain ⟨reply, rest, hserve, hrest, rfl⟩ := transcribe_ask.1 h
    obtain ⟨entries, hfirst⟩ := replies_of_serve hserve
    obtain ⟨entries', hreplies⟩ := ih _ hrest
    exact ⟨entries ++ entries', hfirst.append hreplies⟩

/-! ## Programs that consult the engine alone -/

/-- The program asks an engine what it answers without waiting, writes to the log, and does nothing
else. -/
def Consults : Program α → Prop
  | .done _ => True
  | .ask request next => request.Consults ∧ ∀ answer, (next answer).Consults

theorem Consults.cells_eq (hprogram : program.Consults)
    (h : program.transcribe engine t system = some (asked, value, system')) :
    system'.cells = system.cells ∧ system'.tables = system.tables := by
  induction program generalizing system asked with
  | done value =>
    cases h
    exact ⟨rfl, rfl⟩
  | ask request next ih =>
    obtain ⟨hrequest, hnext⟩ := hprogram
    obtain ⟨reply, rest, hserve, hrest, -⟩ := transcribe_ask.1 h
    obtain ⟨hcells, htables⟩ := ih reply.1 (hnext reply.1) hrest
    have hsame : reply.2.cells = system.cells ∧ reply.2.tables = system.tables := by
      cases request with
      | engine request =>
        simp only [System.serve, Option.map_eq_some_iff] at hserve
        obtain ⟨answer, -, rfl⟩ := hserve
        exact ⟨rfl, rfl⟩
      | log entry =>
        cases hserve
        exact ⟨rfl, rfl⟩
      | _ => exact hrequest.elim
    exact ⟨hcells.trans hsame.1, htables.trans hsame.2⟩

theorem Consults.exists_transcribe (hprogram : program.Consults) (hanswers : engine.Answers)
    (system : System σ) :
    ∃ asked value system', program.transcribe engine t system = some (asked, value, system') := by
  induction program generalizing system with
  | done value => exact ⟨[], value, system, rfl⟩
  | ask request next ih =>
    obtain ⟨hrequest, hnext⟩ := hprogram
    have hserved : ∃ reply, System.serve engine t request system = some reply := by
      cases request with
      | engine request =>
        have hanswered := hanswers request system.engine hrequest
        obtain ⟨reply, hreply⟩ := Option.isSome_iff_exists.1 hanswered
        exact ⟨_, by rw [System.serve, hreply]; rfl⟩
      | log entry => exact ⟨_, rfl⟩
      | _ => exact hrequest.elim
    obtain ⟨reply, hserve⟩ := hserved
    obtain ⟨rest, value, system', hrest⟩ := ih reply.1 (hnext reply.1) reply.2
    exact ⟨_, value, system', transcribe_ask.2 ⟨reply, rest, hserve, hrest, rfl⟩⟩

end Program

section Operations

variable {engine : Engine σ} {t : ThreadId} {system system' : System σ} {asked : List Answered}
  {request : EngineRequest} {next : request.Answer → Operation α} {result : Except Failure α}

theorem consults_bind_engine (hrequest : (Request.engine request).awaited? = none)
    (hnext : ∀ answer, (next answer).run.Consults) :
    ((liftM (Program.engine request) : Operation request.Answer) >>= next).run.Consults :=
  ⟨hrequest, hnext⟩

theorem transcribe_bind_request {request : Request} {next : request.Answer → Operation α} :
    ((liftM (Program.request request) : Operation request.Answer) >>= next).run.transcribe
      engine t system = some (asked, result, system') ↔
      ∃ reply rest, System.serve engine t request system = some reply ∧
        (next reply.1).run.transcribe engine t reply.2 = some (rest, result, system') ∧
        asked = request.answered reply.1 ++ rest :=
  Program.transcribe_ask

theorem transcribe_bind_engine
    (h : ((liftM (Program.engine request) : Operation request.Answer) >>= next).run.transcribe
      engine t system = some (asked, result, system')) :
    ∃ answer rest mid, (next answer).run.transcribe engine t mid = some (rest, result, system') ∧
      asked = ⟨request, answer⟩ :: rest ∧ mid.cells = system.cells ∧ mid.tables = system.tables := by
  obtain ⟨reply, rest, hserve, hrest, hasked⟩ := transcribe_bind_request.1 h
  simp only [System.serve, Option.map_eq_some_iff] at hserve
  obtain ⟨answer, -, rfl⟩ := hserve
  exact ⟨_, rest, _, hrest, hasked, rfl, rfl⟩

/-- What comes of an operation decides whether the next one is made. -/
theorem transcribe_bind {operation : Operation β} {next : β → Operation α} :
    (operation >>= next).run.transcribe engine t system = some (asked, result, system') ↔
      ∃ first outcome mid rest,
        operation.run.transcribe engine t system = some (first, outcome, mid) ∧
        asked = first ++ rest ∧
        ((∃ failure, outcome = .error failure ∧ rest = [] ∧ result = .error failure ∧
            system' = mid) ∨
          ∃ value, outcome = .ok value ∧
            (next value).run.transcribe engine t mid = some (rest, result, system')) := by
  refine Program.transcribe_andThen.trans ?_
  constructor
  · rintro ⟨first, outcome, mid, rest, hfirst, hrest, rfl⟩
    refine ⟨first, outcome, mid, rest, hfirst, rfl, ?_⟩
    cases outcome with
    | error failure =>
      cases hrest
      exact .inl ⟨failure, rfl, rfl, rfl, rfl⟩
    | ok value => exact .inr ⟨value, rfl, hrest⟩
  · rintro ⟨first, outcome, mid, rest, hfirst, rfl,
      ⟨failure, rfl, rfl, rfl, rfl⟩ | ⟨value, rfl, hrest⟩⟩
    · exact ⟨first, .error failure, system', [], hfirst, rfl, rfl⟩
    · exact ⟨first, .ok value, mid, rest, hfirst, hrest, rfl⟩

end Operations

/-! ## Locks -/

/-- The system in which the lock of the event is this thread's, or nobody's. -/
def System.heldBy (system : System σ) (holder : Option ThreadId) (event : Event) : System σ :=
  system.setCell event { system.cell event with holder := holder }

theorem Event.transcribe_locking {engine : Engine σ} {t : ThreadId} {system system' : System σ}
    {event : Event} {body : Program α} {asked : List Answered} {value : α} :
    (event.locking body).transcribe engine t system = some (asked, value, system') ↔
      (system.cell event).holder = none ∧ ∃ inner,
        body.transcribe engine t (system.heldBy (some t) event) = some (asked, value, inner) ∧
        system' = inner.heldBy none event := by
  have hlocking : event.locking body = .ask (.lock event) fun _ =>
      body.andThen fun result => .ask (.unlock event) fun _ => .done result := rfl
  have hlock : ∀ reply, System.serve engine t (.lock event) system = some reply ↔
      (system.cell event).holder = none ∧ reply = ((), system.heldBy (some t) event) := by
    intro reply
    simp only [System.serve]
    split
    next hfree => simp [hfree, System.heldBy, eq_comm]
    next holder hheld => simp [hheld]
  rw [hlocking, Program.transcribe_ask]
  constructor
  · rintro ⟨reply, rest, hserve, hrest, rfl⟩
    obtain ⟨hfree, rfl⟩ := (hlock reply).1 hserve
    obtain ⟨first, result, inner, last, hbody, hunlock, rfl⟩ := Program.transcribe_andThen.1 hrest
    cases hunlock
    refine ⟨hfree, inner, ?_, rfl⟩
    rw [hbody]
    simp [Request.answered]
  · rintro ⟨hfree, inner, hbody, rfl⟩
    refine ⟨_, asked, (hlock _).2 ⟨hfree, rfl⟩, ?_, rfl⟩
    exact Program.transcribe_andThen.2 ⟨asked, value, inner, [], hbody, rfl, by simp⟩

end SyncPoint
