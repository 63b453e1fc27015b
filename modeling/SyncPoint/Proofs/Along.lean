import SyncPoint.Proofs.Machine.Exchanges
import SyncPoint.Proofs.Transcript

/-!
# Programs along all answers

`Reaches` says how far an operation has got with an engine: what it was answered, and what is left
of it.  Nothing ties one answer to the next, as other threads may do anything between two requests,
so what holds whenever an operation reaches a point holds of every engine, every state of the events
and every company.

`Along` is the rule by which such facts are proved: whatever the answers, every request is asked as
one condition says, and the result is as another one does.
-/

namespace SyncPoint

open Host (Exchange)

variable {σ α β : Type}

/-! ## What an operation was answered -/

/-- What was asked of the engine. -/
def consultations (xs : List Exchange) : List Answered :=
  xs.flatMap fun x => x.request.answered x.answer

/-- The event that was read, and what it was bound to. -/
def Host.Exchange.reading? : Exchange → Option (Event × Binding)
  | ⟨.binding event, binding⟩ => some (event, binding)
  | _ => none

/-- What was read of events. -/
def readings (xs : List Exchange) : List (Event × Binding) :=
  xs.filterMap Exchange.reading?

/-- An operation has read this of events and asked this of the engine. -/
structure Met (xs : List Exchange) (read : List (Event × Binding)) (asked : List Answered) :
    Prop where
  read : readings xs = read
  asked : consultations xs = asked

/-- Neither reads an event nor asks the engine. -/
def Request.Apart : Request → Prop
  | .engine _ | .binding _ => False
  | _ => True

theorem met_nil : Met [] [] [] := ⟨rfl, rfl⟩

theorem met_self (xs : List Exchange) : Met xs (readings xs) (consultations xs) := ⟨rfl, rfl⟩

namespace Met

variable {xs : List Exchange} {read : List (Event × Binding)} {asked : List Answered}

theorem engine (h : Met xs read asked) (request : EngineRequest) (answer : request.Answer) :
    Met (xs ++ [⟨.engine request, answer⟩]) read (asked ++ [⟨request, answer⟩]) := by
  constructor
  · rw [readings, List.filterMap_append, ← readings, h.read]
    exact List.append_nil _
  · rw [consultations, List.flatMap_append, ← consultations, h.asked]
    rfl

theorem binding (h : Met xs read asked) (event : Event) (binding : Binding) :
    Met (xs ++ [⟨.binding event, binding⟩]) (read ++ [(event, binding)]) asked := by
  constructor
  · rw [readings, List.filterMap_append, ← readings, h.read]
    rfl
  · rw [consultations, List.flatMap_append, ← consultations, h.asked]
    exact List.append_nil _

theorem apart (h : Met xs read asked) (request : Request) (hrequest : request.Apart)
    (answer : request.Answer) : Met (xs ++ [⟨request, answer⟩]) read asked := by
  have hreading : Exchange.reading? ⟨request, answer⟩ = none := by
    cases request with
    | engine | binding => exact hrequest.elim
    | _ => rfl
  have hanswered : request.answered answer = [] := by
    cases request with
    | engine | binding => exact hrequest.elim
    | _ => rfl
  constructor
  · rw [readings, List.filterMap_append, ← readings, h.read]
    simp [hreading]
  · rw [consultations, List.flatMap_append, ← consultations, h.asked]
    simp [hanswered]

end Met

/-! ## How far an operation has got -/

/-- A thread that runs the program against the engine has got so far: it was answered this, each
time in whatever state the system was, and the rest is left. -/
inductive Reaches (engine : Engine σ) (t : ThreadId) :
    Program α → List Exchange → Program α → Prop
  | start (program : Program α) : Reaches engine t program [] program
  | answered {request : Request} {next : request.Answer → Program α} {answer : request.Answer}
      {system system' : System σ} {xs : List Exchange} {rest : Program α}
      (hserve : System.serve engine t request system = some (answer, system'))
      (hrest : Reaches engine t (next answer) xs rest) :
      Reaches engine t (.ask request next) (⟨request, answer⟩ :: xs) rest

/-- Whatever the program is answered, each request is asked, and the result given, as the conditions
say for what was answered before. -/
def Along (asking : List Exchange → Request → Prop) (ending : List Exchange → α → Prop) :
    Program α → List Exchange → Prop
  | .done value, xs => ending xs value
  | .ask request next, xs => asking xs request ∧
      ∀ answer, Along asking ending (next answer) (xs ++ [⟨request, answer⟩])

/-- An operation that is run alone reaches its result. -/
theorem reaches_of_transcribe {engine : Engine σ} {t : ThreadId} {program : Program α}
    {system system' : System σ} {asked : List Answered} {value : α}
    (h : program.transcribe engine t system = some (asked, value, system')) :
    ∃ xs, Reaches engine t program xs (.done value) ∧ consultations xs = asked := by
  induction program generalizing system asked with
  | done value =>
    cases h
    exact ⟨[], .start _, rfl⟩
  | ask request next ih =>
    obtain ⟨reply, rest, hserve, hrest, rfl⟩ := Program.transcribe_ask.1 h
    obtain ⟨xs, hreaches, rfl⟩ := ih reply.1 hrest
    exact ⟨⟨request, reply.1⟩ :: xs, .answered hserve hreaches, rfl⟩

variable {engine : Engine σ} {t : ThreadId} {asking : List Exchange → Request → Prop}
  {ending : List Exchange → α → Prop} {xs ys : List Exchange}

theorem Along.of_reaches {program rest : Program α} (h : Along asking ending program ys)
    (hreaches : Reaches engine t program xs rest) : Along asking ending rest (ys ++ xs) := by
  induction hreaches generalizing ys with
  | start => rwa [List.append_nil]
  | answered _ _ ih =>
    have hrest := ih (h.2 _)
    rwa [List.append_assoc] at hrest

/-- A request is asked as the condition says. -/
theorem Along.asks {program : Program α} (h : Along asking ending program []) {request : Request}
    {next : request.Answer → Program α}
    (hreaches : Reaches engine t program xs (.ask request next)) : asking xs request :=
  (h.of_reaches hreaches).1

/-- A result is as the condition says. -/
theorem Along.ends {program : Program α} (h : Along asking ending program []) {value : α}
    (hreaches : Reaches engine t program xs (.done value)) : ending xs value :=
  h.of_reaches hreaches

/-! ## Rules -/

theorem Along.imp {program : Program α} {asking' : List Exchange → Request → Prop}
    {ending' : List Exchange → α → Prop} (h : Along asking' ending' program xs)
    (hasking : ∀ ys request, asking' ys request → asking ys request)
    (hending : ∀ ys value, ending' ys value → ending ys value) :
    Along asking ending program xs := by
  induction program generalizing xs with
  | done value => exact hending xs value h
  | ask request next ih => exact ⟨hasking xs request h.1, fun answer => ih answer (h.2 answer)⟩

theorem Along.andThen {program : Program β} {next : β → Program α}
    {mid : List Exchange → β → Prop} (h : Along asking mid program xs)
    (hnext : ∀ ys value, mid ys value → Along asking ending (next value) ys) :
    Along asking ending (program.andThen next) xs := by
  induction program generalizing xs with
  | done value => exact hnext xs value h
  | ask request rest ih => exact ⟨h.1, fun answer => ih answer (h.2 answer)⟩

theorem Program.Prompt.along {program : Program α} (h : program.Prompt) (xs : List Exchange) :
    Along (fun _ request => request.awaited? = none) (fun _ _ => True) program xs := by
  induction program generalizing xs with
  | done value => trivial
  | ask request next ih => exact ⟨h.1, fun answer => ih answer (h.2 answer) _⟩

section Operations

variable {operation : Operation β} {next : β → Operation α}
  {ending : List Exchange → Except Failure α → Prop}

theorem along_bind (mid : List Exchange → Except Failure β → Prop)
    (h : Along asking mid operation.run xs)
    (hfailed : ∀ ys failure, mid ys (.error failure) → ending ys (.error failure))
    (hnext : ∀ ys value, mid ys (.ok value) → Along asking ending (next value).run ys) :
    Along asking ending (operation >>= next).run xs := by
  refine Along.andThen h fun ys result hmid => ?_
  cases result with
  | error failure => exact hfailed ys failure hmid
  | ok value => exact hnext ys value hmid

theorem along_bind_lift {program : Program β} (mid : List Exchange → β → Prop)
    (h : Along asking mid program xs)
    (hnext : ∀ ys value, mid ys value → Along asking ending (next value).run ys) :
    Along asking ending ((liftM program : Operation β) >>= next).run xs := by
  show Along asking ending ((program.andThen _).andThen _) xs
  rw [Program.andThen_assoc]
  exact h.andThen hnext

theorem along_bind_request {request : Request} {next : request.Answer → Operation α}
    (hasks : asking xs request)
    (hnext : ∀ answer, Along asking ending (next answer).run (xs ++ [⟨request, answer⟩])) :
    Along asking ending ((liftM (Program.request request) : Operation request.Answer) >>= next).run
      xs :=
  ⟨hasks, hnext⟩

end Operations

/-- A lock that is taken and given back says nothing of the events or the engine. -/
theorem along_locking {event : Event} {body : Program α}
    {ending : List Exchange → α → Prop}
    (hlock : asking xs (.lock event)) (hunlock : ∀ ys, asking ys (.unlock event))
    (hending : ∀ ys value, ending ys value → ending (ys ++ [⟨.unlock event, ()⟩]) value)
    (hbody : Along asking ending body (xs ++ [⟨.lock event, ()⟩])) :
    Along asking ending (event.locking body) xs := by
  refine ⟨hlock, fun _ => ?_⟩
  show Along asking ending (body.andThen _) _
  exact hbody.andThen fun ys value hvalue => ⟨hunlock ys, fun _ => hending ys value hvalue⟩

end SyncPoint
