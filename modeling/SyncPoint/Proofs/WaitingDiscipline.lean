import SyncPoint.Proofs.Asking
import SyncPoint.Scripted

/-!
# What operations wait for, and when they nudge

Over any engine: no operation but the wait itself and a measurement against a fresh marker waits for
a command, queries and measurements nudge only for a command that they have just seen pending, and
nothing is asked of the engine unless the events were found bound.

A measurement reports that something is not ready exactly if a command was pending still after its
nudge, with one exception: an engine that refuses the fresh marker may call that not ready too, and
its own words are passed on (`elapsedTime_refused`).
-/

namespace SyncPoint

open Host (Exchange)

variable {σ α : Type}

/-! ## Points of a run -/

section

variable (engine : Engine σ) (t : ThreadId)

/-- Having been answered that, the program asks this of the engine. -/
def Asks (program : Program α) (xs : List Exchange) (request : EngineRequest) : Prop :=
  ∃ next, Reaches engine t program xs (.ask (.engine request) next)

/-- Having been answered that, the program is done with this result. -/
def Gives (program : Program α) (xs : List Exchange) (value : α) : Prop :=
  Reaches engine t program xs (.done value)

end

/-- The command that was nudged. -/
def Answered.nudged? : Answered → Option CommandRef
  | ⟨.tryAdvance c, _⟩ => some c
  | _ => none

/-- The commands that were nudged. -/
def nudged (asked : List Answered) : List CommandRef := asked.filterMap Answered.nudged?

/-- The positions at which events were found. -/
def positions (read : List (Event × Binding)) : List CommandRef :=
  read.filterMap (·.2.position?)

/-- With this nudge, the nudges are for the positions found, in order and one for each event at
most. -/
def InTurn (xs : List Exchange) (c : CommandRef) : Prop :=
  (nudged (consultations xs) ++ [c]).Sublist (positions (readings xs))

/-- The marker was enqueued in the last exchange with the engine, behind the position that the
measured events share. -/
def JustEnqueued (start stop : Event) (xs : List Exchange) (m : CommandRef) : Prop :=
  ∃ asked q request, MeasurementMarks start stop (readings xs) asked q request ∧
    consultations xs = asked ++ [⟨.enqueueMarker q request, .ok m⟩]

/-- The events that a measurement is about. -/
def measured (start stop : Event) : List Event :=
  if start.ordinal = stop.ordinal then [start] else [start, stop]

/-! ## Nudges and waits -/

theorem nudged_polls {c : CommandRef} {polls : List Answered} {ready : Bool}
    (h : Polls c polls ready) : (nudged polls).Sublist [c] := by
  cases h with
  | complete => exact List.nil_sublist _
  | nudged => exact List.Sublist.refl _

theorem SoleNudge.inTurn {event : Event} {xs : List Exchange} {c : CommandRef}
    (h : SoleNudge event (readings xs) (consultations xs) c) : InTurn xs c := by
  obtain ⟨recorded, hread, hasked⟩ := h
  rw [InTurn, hread, hasked]
  exact List.Sublist.refl _

theorem MeasurementNudges.inTurn {start stop : Event} {xs : List Exchange} {c : CommandRef}
    (h : MeasurementNudges start stop (readings xs) (consultations xs) c) : InTurn xs c := by
  rw [InTurn]
  generalize readings xs = read at h ⊢
  generalize consultations xs = asked at h ⊢
  cases h with
  | start => exact List.sublist_append_left [c] _
  | @stop p _ _ _ polls hready =>
    have hfirst : nudged (polls ++ [⟨.status c, .pending⟩]) = nudged polls := by
      rw [nudged, List.filterMap_append]
      exact List.append_nil _
    rw [hfirst]
    exact (nudged_polls hready).append_right [c]

/-- Looking at a command waits for none. -/
theorem Polls.no_await {c : CommandRef} {polls : List Answered} {ready : Bool}
    (h : Polls c polls ready) {x : Answered} (hx : x ∈ polls) (m : CommandRef) :
    x.request ≠ .await m := by
  cases h <;> simp at hx <;> grind

/-- Before its marker is enqueued, a measurement waits for nothing. -/
theorem JustEnqueued.no_await {start stop : Event} {xs : List Exchange} {m : CommandRef}
    (h : JustEnqueued start stop xs m) {x : Answered} (hx : x ∈ consultations xs)
    (c : CommandRef) : x.request ≠ .await c := by
  obtain ⟨asked, q, request, hmarks, hasked⟩ := h
  rw [hasked] at hx
  generalize readings xs = read at hmarks
  cases hmarks with
  | behind henabled hrecorded hready hready' =>
    simp only [List.append_assoc, List.mem_append] at hx
    rcases hx with hx | hx | hx
    · exact hready.no_await hx c
    · exact hready'.no_await hx c
    · simp at hx
      grind

/-! ## What each request says of the answers before it -/

namespace Asked

variable {events : List Event} {xs : List Exchange} {c m : CommandRef} {request : EngineRequest}
  {nudges : List (Event × Binding) → List Answered → CommandRef → Prop}
  {fresh : List (Event × Binding) → List Answered → QueueRef → MarkerRequest CommandRef → Prop}

theorem foundBound (h : Asked events nudges fresh xs (.engine request)) :
    FoundBound events (readings xs) := by
  cases h with
  | apart h => exact h.elim
  | look hmet hbound | nudge hmet hbound | marker hmet hbound | await hmet hbound =>
    rw [hmet.read]
    exact hbound

theorem tryAdvance (h : Asked events nudges fresh xs (.engine (.tryAdvance c))) :
    nudges (readings xs) (consultations xs) c := by
  cases h with
  | apart h => exact h.elim
  | look _ _ hlook => exact absurd trivial hlook
  | nudge hmet _ hnudge =>
    rw [hmet.read, hmet.asked]
    exact hnudge

theorem awaits (h : Asked events nudges fresh xs (.engine (.await m))) :
    ∃ asked q request, fresh (readings xs) asked q request ∧
      consultations xs = asked ++ [⟨.enqueueMarker q request, .ok m⟩] := by
  cases h with
  | apart h => exact h.elim
  | look _ _ hlook => exact absurd trivial hlook
  | @await _ q request read asked hmet _ hfresh =>
    rw [hmet.read]
    exact ⟨asked, q, request, hfresh, hmet.asked⟩

end Asked

/-- What the engine is asked, it is asked about events that were found bound. -/
def AskedOfBound (events : List Event) (xs : List Exchange) : Request → Prop
  | .engine _ => FoundBound events (readings xs)
  | _ => True

/-- The engine is not asked. -/
def AskedOfNobody : Request → Prop
  | .engine _ => False
  | _ => True

theorem Program.Consults.along_bound {program : Program α} {events : List Event}
    {xs : List Exchange} (h : program.Consults) (hbound : FoundBound events (readings xs)) :
    Along (AskedOfBound events) (fun _ _ => True) program xs := by
  induction program generalizing xs with
  | done value => trivial
  | ask request next ih =>
    refine ⟨?_, fun answer => ih answer (h.2 answer) ?_⟩
    · cases request with
      | engine => exact hbound
      | _ => trivial
    · cases request with
      | engine request => rwa [((met_self xs).engine request answer).read]
      | log entry => rwa [((met_self xs).apart (.log entry) trivial answer).read]
      | _ => exact h.1.elim

theorem along_position? (event : Event) (mid : List Exchange → Option CommandRef → Prop)
    (hunbound : ∀ ys, readings ys = [(event, .unbound)] → mid ys none)
    (hbound : ∀ ys p recorded, readings ys = [(event, .bound p recorded)] → mid ys (some p)) :
    Along (AskedOfBound [event]) mid event.position? [] := by
  refine ⟨trivial, fun _ => ⟨trivial, fun binding => ⟨trivial, fun _ => ?_⟩⟩⟩
  cases binding with
  | unbound => exact hunbound _ rfl
  | bound p recorded => exact hbound _ p recorded rfl

theorem along_synchronize_bound (event : Event) :
    Along (AskedOfBound [event]) (fun _ _ => True) event.synchronize [] := by
  have hfound : Along (AskedOfBound [event])
      (fun ys position => position.isSome → FoundBound [event] (readings ys))
      event.position? [] := by
    refine along_position? event _ (fun ys _ => nofun) fun ys p recorded hread _ => ?_
    rw [hread]
    exact foundBound_singleton
  refine hfound.andThen fun ys position hfound => ?_
  cases position with
  | none => trivial
  | some p => exact ⟨hfound rfl, fun _ => trivial⟩

theorem consults_waitFor (event : Event) (position : CommandRef) (queue : QueueRef) :
    (do
      let owner ← Program.engine (.ownerId position)
      let target ← Program.engine (.queueId queue)
      if owner = target then return
      if !(← Program.engine (.tryAdvance position)) then throw .queueStalled
      let timing := MarkerTiming.forProfiling (← Program.engine (.profiling queue))
      let _ ← ExceptT.mk (Program.engine (.enqueueMarker queue ⟨timing, [position]⟩))
      Program.log (.queueWaits event.ordinal target) : Operation Unit).run.Consults := by
  refine consults_bind_engine rfl fun owner => consults_bind_engine rfl fun target => ?_
  split
  · trivial
  · refine consults_bind_engine rfl fun progress => ?_
    cases progress with
    | false => trivial
    | true =>
      refine consults_bind_engine rfl fun profiling => ⟨rfl, fun answer => ?_⟩
      cases answer with
      | error => trivial
      | ok => exact ⟨trivial, fun _ => trivial⟩

theorem along_streamWait_bound (event : Event) (queue : QueueRef) :
    Along (AskedOfBound [event]) (fun _ _ => True) (event.streamWait queue).run [] := by
  refine along_locking trivial (fun _ => trivial) (fun _ _ h => h) ⟨trivial, fun binding => ?_⟩
  cases binding with
  | unbound => trivial
  | bound p recorded =>
    exact (consults_waitFor event p queue).along_bound foundBound_singleton

theorem along_elapsedTime_bound (start stop : Event) :
    Along (AskedOfBound (measured start stop)) (fun _ _ => True)
      (start.elapsedTime stop).run [] := by
  rw [measured]
  split
  next hsame =>
    refine (along_elapsedTime_self hsame).imp (fun ys request h => ?_) fun _ _ _ => trivial
    cases request with
    | engine => exact h.foundBound
    | _ => trivial
  next hne =>
    refine (along_elapsedTime_other hne).imp (fun ys request h => ?_) fun _ _ _ => trivial
    cases request with
    | engine => exact h.foundBound
    | _ => trivial

/-! ## The discipline -/

/-- What operations wait for and when they nudge, against an engine that may answer anything. -/
structure Disciplined (engine : Engine σ) (t : ThreadId) : Prop where
  query_prompt {event : Event} {xs : List Exchange} {m : CommandRef} :
    ¬ Asks engine t event.query xs (.await m)
  record_prompt {event : Event} {q : QueueRef} {xs : List Exchange} {m : CommandRef} :
    ¬ Asks engine t (event.record q).run xs (.await m)
  attach_prompt {event : Event} {q : QueueRef} {c : CommandRef} {xs : List Exchange}
    {m : CommandRef} : ¬ Asks engine t (event.attachCommand q c).run xs (.await m)
  streamWait_prompt {event : Event} {q : QueueRef} {xs : List Exchange} {m : CommandRef} :
    ¬ Asks engine t (event.streamWait q).run xs (.await m)
  /-- A measurement waits only for the marker that it has just enqueued, and only once. -/
  elapsed_waits {start stop : Event} {xs : List Exchange} {m : CommandRef} :
    Asks engine t (start.elapsedTime stop).run xs (.await m) →
      start.ordinal ≠ stop.ordinal ∧ JustEnqueued start stop xs m ∧
        ∀ x ∈ consultations xs, ∀ c, x.request ≠ .await c
  query_nudges {event : Event} {xs : List Exchange} {c : CommandRef} :
    Asks engine t event.query xs (.tryAdvance c) →
      SoleNudge event (readings xs) (consultations xs) c ∧ InTurn xs c
  elapsed_nudges_same {start stop : Event} {xs : List Exchange} {c : CommandRef} :
    start.ordinal = stop.ordinal → Asks engine t (start.elapsedTime stop).run xs (.tryAdvance c) →
      SoleNudge start (readings xs) (consultations xs) c ∧ InTurn xs c
  elapsed_nudges_other {start stop : Event} {xs : List Exchange} {c : CommandRef} :
    start.ordinal ≠ stop.ordinal → Asks engine t (start.elapsedTime stop).run xs (.tryAdvance c) →
      MeasurementNudges start stop (readings xs) (consultations xs) c ∧ InTurn xs c
  query_notReady {event : Event} {xs : List Exchange} {status : EventStatus} :
    Gives engine t event.query xs status → (status = .notReady ↔ StillPending (consultations xs))
  /-- An engine that refuses the marker may call that not ready. -/
  elapsed_notReady {start stop : Event} {xs : List Exchange} {result : Except Failure Single} :
    Gives engine t (start.elapsedTime stop).run xs result →
      (NotReady result ↔ StillPending (consultations xs) ∨ RefusedUnready (consultations xs))
  /-- Nothing is asked of the engine unless the event was read and found bound. -/
  query_bound {event : Event} {xs : List Exchange} {request : EngineRequest} :
    Asks engine t event.query xs request → FoundBound [event] (readings xs)
  synchronize_bound {event : Event} {xs : List Exchange} {request : EngineRequest} :
    Asks engine t event.synchronize xs request → FoundBound [event] (readings xs)
  streamWait_bound {event : Event} {q : QueueRef} {xs : List Exchange} {request : EngineRequest} :
    Asks engine t (event.streamWait q).run xs request → FoundBound [event] (readings xs)
  elapsed_bound {start stop : Event} {xs : List Exchange} {request : EngineRequest} :
    Asks engine t (start.elapsedTime stop).run xs request →
      FoundBound (measured start stop) (readings xs)
  isRecorded_silent {event : Event} {xs : List Exchange} {request : EngineRequest} :
    ¬ Asks engine t event.isRecorded xs request
  position_silent {event : Event} {xs : List Exchange} {request : EngineRequest} :
    ¬ Asks engine t event.position? xs request
  display_silent {event : Event} {xs : List Exchange} {request : EngineRequest} :
    ¬ Asks engine t event.display xs request

section Discipline

variable {engine : Engine σ} {t : ThreadId} {program : Program α} {xs : List Exchange}
  {events : List Event} {request : EngineRequest} {start stop : Event} {c m : CommandRef}

theorem not_asks_await (h : program.Prompt) : ¬ Asks engine t program xs (.await m) := by
  rintro ⟨next, hreaches⟩
  exact nomatch (h.along []).asks hreaches

theorem not_asks (h : Along (fun _ => AskedOfNobody) (fun _ _ => True) program []) :
    ¬ Asks engine t program xs request := by
  rintro ⟨next, hreaches⟩
  exact h.asks hreaches

theorem foundBound_of_asks {ending : List Exchange → α → Prop}
    (h : Along (AskedOfBound events) ending program []) (hasks : Asks engine t program xs request) :
    FoundBound events (readings xs) := by
  obtain ⟨next, hreaches⟩ := hasks
  exact h.asks hreaches

theorem elapsed_waits (hasks : Asks engine t (start.elapsedTime stop).run xs (.await m)) :
    start.ordinal ≠ stop.ordinal ∧ JustEnqueued start stop xs m := by
  obtain ⟨next, hreaches⟩ := hasks
  by_cases hsame : start.ordinal = stop.ordinal
  · obtain ⟨_, _, _, hnone, _⟩ := ((along_elapsedTime_self hsame).asks hreaches).awaits
    exact hnone.elim
  · exact ⟨hsame, ((along_elapsedTime_other hsame).asks hreaches).awaits⟩

theorem elapsed_notReady {result : Except Failure Single}
    (hgives : Gives engine t (start.elapsedTime stop).run xs result) :
    NotReady result ↔ StillPending (consultations xs) ∨ RefusedUnready (consultations xs) := by
  have hended : Ended xs result := by
    by_cases hsame : start.ordinal = stop.ordinal
    · exact (along_elapsedTime_self hsame).ends hgives
    · exact (along_elapsedTime_other hsame).ends hgives
  obtain ⟨read, asked, hmet, hiff⟩ := hended
  rwa [hmet.asked]

theorem disciplined (engine : Engine σ) (t : ThreadId) : Disciplined engine t where
  query_prompt := not_asks_await (Event.prompt_query _)
  record_prompt := not_asks_await (Event.prompt_addMarker ..)
  attach_prompt := not_asks_await (Event.prompt_addMarker ..)
  streamWait_prompt := not_asks_await (Event.prompt_streamWait ..)
  elapsed_waits hasks := by
    obtain ⟨hne, hmarker⟩ := elapsed_waits hasks
    exact ⟨hne, hmarker, fun x hx => hmarker.no_await hx⟩
  query_nudges hasks := by
    obtain ⟨next, hreaches⟩ := hasks
    have hnudge := (along_query.asks hreaches).tryAdvance
    exact ⟨hnudge, hnudge.inTurn⟩
  elapsed_nudges_same hsame hasks := by
    obtain ⟨next, hreaches⟩ := hasks
    have hnudge := ((along_elapsedTime_self hsame).asks hreaches).tryAdvance
    exact ⟨hnudge, hnudge.inTurn⟩
  elapsed_nudges_other hne hasks := by
    obtain ⟨next, hreaches⟩ := hasks
    have hnudge := ((along_elapsedTime_other hne).asks hreaches).tryAdvance
    exact ⟨hnudge, hnudge.inTurn⟩
  query_notReady hgives := by
    obtain ⟨read, asked, hmet, hiff⟩ := along_query.ends hgives
    rwa [hmet.asked]
  elapsed_notReady := elapsed_notReady
  query_bound hasks := by
    obtain ⟨next, hreaches⟩ := hasks
    exact (along_query.asks hreaches).foundBound
  synchronize_bound := foundBound_of_asks (along_synchronize_bound _)
  streamWait_bound := foundBound_of_asks (along_streamWait_bound _ _)
  elapsed_bound := foundBound_of_asks (along_elapsedTime_bound _ _)
  isRecorded_silent := not_asks ⟨trivial, fun _ => ⟨trivial, fun _ => ⟨trivial, fun _ => trivial⟩⟩⟩
  position_silent := not_asks ⟨trivial, fun _ => ⟨trivial, fun _ => ⟨trivial, fun _ => trivial⟩⟩⟩
  display_silent := not_asks ⟨trivial, fun _ => trivial⟩

end Discipline

/-! ### A marker refused as not ready -/

namespace Refusing

/-- A queue that refuses markers as not ready, and two recorded events at its one command, which is
done. -/
def system : System Scripted.State where
  engine :=
    { queues := [{ id := ⟨1⟩, last := some 0, markers := [.fail .notReady] }]
      commands := [{ queue := 0, script := { done := true, times := some ⟨10, 20⟩ } }] }
  cells := [{ binding := .bound 0 true }, { binding := .bound 0 true }]

def start : Event := ⟨0, .empty⟩

def stop : Event := ⟨1, .empty⟩

def asked : List Answered :=
  [⟨.status 0, .complete⟩, ⟨.status 0, .complete⟩, ⟨.timestamps 0, some ⟨10, 20⟩⟩,
    ⟨.owner 0, some 0⟩, ⟨.queueId 0, ⟨1⟩⟩, ⟨.profiling 0, true⟩,
    ⟨.enqueueMarker 0 ⟨.timed, []⟩, .error (.reported .notReady "scripted failure")⟩]

end Refusing

/-- Nothing is pending, and still the measurement reports that something is not ready. -/
theorem elapsedTime_refused :
    ∃ xs result, Gives Scripted.engine 0 (Refusing.start.elapsedTime Refusing.stop).run xs result ∧
      NotReady result ∧ ¬ StillPending (consultations xs) := by
  have hrun : ∃ final, (Refusing.start.elapsedTime Refusing.stop).run.transcribe Scripted.engine 0
      Refusing.system =
        some (Refusing.asked, .error (.reported .notReady "scripted failure"), final) := ⟨_, rfl⟩
  obtain ⟨final, hrun⟩ := hrun
  obtain ⟨xs, hgives, hasked⟩ := reaches_of_transcribe hrun
  refine ⟨xs, _, hgives, notReady_error.2 rfl, ?_⟩
  rw [hasked]
  exact not_stillPending (by simp [Unhurried, Refusing.asked])

end SyncPoint
