import SyncPoint.Proofs.Transcript
import SyncPoint.Scripted

/-!
# What binding an event does, over any engine

`Event.Selects` lists the ways in which a position is chosen, by the answers that the engine gives,
and `Event.Attempt` says what comes of an attempt to bind an event in each of them.  Whatever the
engine answers, every attempt is one of these, and an engine that answers lets every attempt end
(`Event.addMarker_conforms`).
-/

namespace SyncPoint

variable {σ : Type}

namespace Event

/-! ## Choosing a position -/

/-- How a position is chosen on `queue` for a caller who names a command or none: what the engine is
asked, until there is a position or none can be had. -/
inductive Selects (queue : QueueRef) :
    Option CommandRef → List Answered → Except Failure CommandRef → Prop
  /-- The command that the caller names belongs to another queue. -/
  | foreign {command : CommandRef} {owner target : QueueId} (hne : owner ≠ target) :
    Selects queue (some command) [⟨.ownerId command, owner⟩, ⟨.queueId queue, target⟩]
      (.error (.foreignCommand owner target))
  | named {command : CommandRef} {id : QueueId} :
    Selects queue (some command) [⟨.ownerId command, id⟩, ⟨.queueId queue, id⟩] (.ok command)
  /-- The queue does not profile. -/
  | untimed {outcome : Except Failure CommandRef} :
    Selects queue none
      [⟨.profiling queue, false⟩, ⟨.enqueueMarker queue ⟨.untimed, []⟩, outcome⟩] outcome
  /-- The queue profiles and has taken no command yet. -/
  | first {outcome : Except Failure CommandRef} :
    Selects queue none
      [⟨.profiling queue, true⟩, ⟨.lastEnqueued queue, none⟩,
        ⟨.enqueueMarker queue ⟨.timed, []⟩, outcome⟩] outcome
  /-- The queue profiles, and callers cannot see its newest command. -/
  | hidden {last : CommandRef} {outcome : Except Failure CommandRef} :
    Selects queue none
      [⟨.profiling queue, true⟩, ⟨.lastEnqueued queue, some last⟩, ⟨.userVisible last, false⟩,
        ⟨.enqueueMarker queue ⟨.timed, []⟩, outcome⟩] outcome
  | reused {last : CommandRef} :
    Selects queue none
      [⟨.profiling queue, true⟩, ⟨.lastEnqueued queue, some last⟩, ⟨.userVisible last, true⟩]
      (.ok last)

/-- The queue was found to profile, and its newest command to be visible. -/
def EndsVisibly (queue : QueueRef) (asked : List Answered) : Prop :=
  ∃ last, ⟨.profiling queue, true⟩ ∈ asked ∧ ⟨.lastEnqueued queue, some last⟩ ∈ asked ∧
    ⟨.userVisible last, true⟩ ∈ asked

namespace Selects

variable {queue : QueueRef} {command : Option CommandRef} {asked : List Answered}
  {chosen : Except Failure CommandRef}

theorem markersOf_eq_nil_iff (h : Selects queue command asked chosen) :
    markersOf asked = [] ↔ command.isSome ∨ EndsVisibly queue asked := by
  cases h <;> simp [markersOf, Answered.marker?, EndsVisibly]

theorem markersOf_eq (h : Selects queue command asked chosen) (hmarked : markersOf asked ≠ []) :
    ∃ profiling, ⟨.profiling queue, profiling⟩ ∈ asked ∧
      markersOf asked = [(queue, ⟨.forProfiling profiling, []⟩)] := by
  cases h with
  | foreign | named | reused => exact absurd rfl hmarked
  | untimed => exact ⟨false, by simp, rfl⟩
  | first | hidden => exact ⟨true, by simp, rfl⟩

/-- A command that the caller names is refused as an invalid value. -/
theorem kind_of_refused {failure : Failure} (h : Selects queue command asked (.error failure))
    (hnamed : command.isSome) : failure.kind = .invalidValue := by
  cases h with
  | foreign => rfl
  | untimed | first | hidden => cases hnamed

/-- Where the caller names no command, only the engine can refuse. -/
theorem mem_of_refused {failure : Failure} (h : Selects queue none asked (.error failure)) :
    ∃ timing, ⟨.enqueueMarker queue ⟨timing, []⟩, .error failure⟩ ∈ asked := by
  cases h with
  | untimed => exact ⟨.untimed, by simp⟩
  | first | hidden => exact ⟨.timed, by simp⟩

end Selects

variable {engine : Engine σ} {t : ThreadId} {system system' : System σ} {asked : List Answered}

theorem consults_enqueueMarker (queue : QueueRef) (timing : MarkerTiming) :
    (enqueueMarker queue timing).run.Consults :=
  ⟨rfl, fun _ => trivial⟩

theorem consults_currentPosition (queue : QueueRef) : (currentPosition queue).run.Consults := by
  refine consults_bind_engine rfl fun profiling => ?_
  cases profiling with
  | false => exact consults_enqueueMarker queue .untimed
  | true =>
    refine consults_bind_engine rfl fun newest => ?_
    cases newest with
    | none => exact consults_enqueueMarker queue .timed
    | some last =>
      refine consults_bind_engine rfl fun visible => ?_
      cases visible with
      | false => exact consults_enqueueMarker queue .timed
      | true => trivial

theorem consults_choosePosition (queue : QueueRef) (command : Option CommandRef) :
    (choosePosition queue command).run.Consults := by
  cases command with
  | none => exact consults_currentPosition queue
  | some command =>
    refine consults_bind_engine rfl fun owner => consults_bind_engine rfl fun target => ?_
    split <;> trivial

theorem asked_of_enqueueMarker {queue : QueueRef} {timing : MarkerTiming}
    {chosen : Except Failure CommandRef}
    (h : (enqueueMarker queue timing).run.transcribe engine t system =
      some (asked, chosen, system')) : asked = [⟨.enqueueMarker queue ⟨timing, []⟩, chosen⟩] := by
  obtain ⟨reply, rest, -, hrest, rfl⟩ := Program.transcribe_ask.1 h
  cases hrest
  rfl

theorem selects_of_currentPosition {queue : QueueRef} {chosen : Except Failure CommandRef}
    (h : (currentPosition queue).run.transcribe engine t system =
      some (asked, chosen, system')) : Selects queue none asked chosen := by
  obtain ⟨profiling, rest, _, hprofiling, rfl, -⟩ := transcribe_bind_engine h
  cases profiling with
  | false =>
    obtain rfl := asked_of_enqueueMarker hprofiling
    exact .untimed
  | true =>
    obtain ⟨newest, rest, _, hnewest, rfl, -⟩ := transcribe_bind_engine hprofiling
    cases newest with
    | none =>
      obtain rfl := asked_of_enqueueMarker hnewest
      exact .first
    | some last =>
      obtain ⟨visible, rest, _, hvisible, rfl, -⟩ := transcribe_bind_engine hnewest
      cases visible with
      | false =>
        obtain rfl := asked_of_enqueueMarker hvisible
        exact .hidden
      | true =>
        cases hvisible
        exact .reused

theorem selects_of_choosePosition {queue : QueueRef} {command : Option CommandRef}
    {chosen : Except Failure CommandRef}
    (h : (choosePosition queue command).run.transcribe engine t system =
      some (asked, chosen, system')) : Selects queue command asked chosen := by
  cases command with
  | none => exact selects_of_currentPosition h
  | some command =>
    obtain ⟨owner, rest, _, howner, rfl, -⟩ := transcribe_bind_engine h
    obtain ⟨target, rest, _, htarget, rfl, -⟩ := transcribe_bind_engine howner
    split at htarget
    next heq =>
      cases heq
      cases htarget
      exact .named
    next hne =>
      cases htarget
      exact .foreign hne

/-! ## Binding to the position -/

/-- Binds the event to a position that has been chosen, unless it is there already. -/
def bindTo (event : Event) (queue : QueueRef) (recorded : Bool) (position : CommandRef) :
    Operation Unit := do
  let current ← Program.request (.binding event)
  let target ← Program.engine (.queueId queue)
  if current.position? = some position then
    Program.log (.alreadyBound event.ordinal target)
  else
    Program.request (.bind event (.bound position recorded))
    Program.log (.bound event.ordinal target recorded)

theorem addMarker_eq (event : Event) (queue : QueueRef) (command : Option CommandRef)
    (recorded : Bool) : event.addMarker queue command recorded =
      event.guarding (choosePosition queue command >>= event.bindTo queue recorded) := rfl

end Event

/-- The binding of an event that is bound to a position: where it is there already, it stays as it
is. -/
def Binding.boundTo (binding : Binding) (position : CommandRef) (recorded : Bool) : Binding :=
  if binding.position? = some position then binding else .bound position recorded

/-- The system in which the event has the binding. -/
def System.withBinding (system : System σ) (event : Event) (binding : Binding) : System σ :=
  system.setCell event { system.cell event with binding := binding }

theorem Binding.position?_boundTo (binding : Binding) (position : CommandRef) (recorded : Bool) :
    (binding.boundTo position recorded).position? = some position := by
  unfold boundTo
  split
  next hsame => exact hsame
  next => rfl

/-- The binding of an event after an attempt to bind it to what was chosen. -/
def Binding.after (binding : Binding) (recorded : Bool) : Except Failure CommandRef → Binding
  | .error _ => binding
  | .ok position => binding.boundTo position recorded

namespace System

variable {system inner : System σ} {event : Event} {b : Binding} {t : ThreadId}

theorem withBinding_self (system : System σ) (event : Event) :
    (system.withBinding event (system.binding event)).cells = system.cells := by
  show system.cells.set event.ordinal (system.cells.getD event.ordinal {}) = system.cells
  rcases Nat.lt_or_ge event.ordinal system.cells.length with hlt | hge
  · simp [List.getD, hlt]
  · exact List.set_eq_of_length_le hge

theorem binding_heldBy (system : System σ) (holder : Option ThreadId) (event : Event) :
    (system.heldBy holder event).binding event = system.binding event := by
  rcases Nat.lt_or_ge event.ordinal system.cells.length with hlt | hge
  · rw [binding, heldBy, cell_setCell_self hlt]
    rfl
  · rw [heldBy, setCell, List.set_eq_of_length_le hge]

theorem binding_withBinding (hmade : event.ordinal < system.cells.length) (b : Binding) :
    (system.withBinding event b).binding event = b := by
  rw [binding, withBinding, cell_setCell_self hmade]

/-- Once the lock is given back, all that is left of the time under it is the new binding. -/
theorem cells_released (hmade : event.ordinal < system.cells.length)
    (hfree : (system.cell event).holder = none)
    (hinner : inner.cells = ((system.heldBy (some t) event).withBinding event b).cells) :
    (inner.heldBy none event).cells = (system.withBinding event b).cells := by
  have hcells : inner.cells = system.cells.set event.ordinal ⟨b, some t⟩ := by
    rw [hinner, withBinding, heldBy, cell_setCell_self hmade]
    exact List.set_set ..
  have hcell : inner.cell event = ⟨b, some t⟩ := by
    rw [cell, hcells]
    simp [hmade]
  have hbound : { system.cell event with binding := b } = (⟨b, none⟩ : EventCell) := by
    rw [← hfree]
  rw [heldBy, hcell, withBinding, hbound]
  show inner.cells.set _ _ = system.cells.set _ _
  rw [hcells, List.set_set]

theorem cell_congr (hcells : inner.cells = system.cells) (event : Event) :
    inner.cell event = system.cell event := by
  rw [cell, cell, hcells]

theorem binding_congr (hcells : inner.cells = system.cells) (event : Event) :
    inner.binding event = system.binding event :=
  congrArg EventCell.binding (cell_congr hcells event)

theorem withBinding_congr (hcells : inner.cells = system.cells) (event : Event) (b : Binding) :
    (inner.withBinding event b).cells = (system.withBinding event b).cells := by
  show inner.cells.set _ { inner.cells.getD _ {} with binding := b } = _
  rw [hcells]
  rfl

end System

namespace Event

theorem bindTo_run {event : Event} {queue : QueueRef} {position : CommandRef} {recorded : Bool}
    {result : Except Failure Unit}
    (h : (event.bindTo queue recorded position).run.transcribe engine t system =
      some (asked, result, system')) :
    (∃ target, asked = [⟨.queueId queue, target⟩]) ∧ result = .ok () ∧
      system'.tables = system.tables ∧ system'.cells = (system.withBinding event
        ((system.binding event).boundTo position recorded)).cells := by
  obtain ⟨current, later, hcurrent, hlater, rfl⟩ := transcribe_bind_request.1 h
  cases hcurrent
  obtain ⟨target, rest, mid, hrest, rfl, hcells, htables⟩ := transcribe_bind_engine hlater
  split at hrest
  next hsame =>
    cases hrest
    refine ⟨⟨target, rfl⟩, rfl, htables, ?_⟩
    rw [Binding.boundTo, if_pos hsame, System.withBinding_self]
    exact hcells
  next hother =>
    cases hrest
    refine ⟨⟨target, rfl⟩, rfl, htables, ?_⟩
    rw [Binding.boundTo, if_neg hother]
    show mid.cells.set _ { mid.cells.getD event.ordinal {} with binding := _ } = _
    rw [hcells]
    rfl

theorem exists_bindTo (hanswers : engine.Answers) (event : Event) (queue : QueueRef)
    (recorded : Bool) (position : CommandRef) (system : System σ) :
    ∃ asked result system', (event.bindTo queue recorded position).run.transcribe engine t system =
      some (asked, result, system') := by
  obtain ⟨reply, hreply⟩ := Option.isSome_iff_exists.1 (hanswers (.queueId queue) system.engine rfl)
  have hserve : System.serve engine t (.engine (.queueId queue)) system = some (reply.value,
      { system with engine := reply.state, log := system.log ++ reply.log }) := by
    rw [System.serve, hreply]
    rfl
  have hends : ∃ rest result system', (if (system.binding event).position? = some position then
      (Program.log (.alreadyBound event.ordinal reply.value) : Operation Unit)
    else do
      Program.request (.bind event (.bound position recorded))
      Program.log (.bound event.ordinal reply.value recorded)).run.transcribe engine t
        { system with engine := reply.state, log := system.log ++ reply.log } =
      some (rest, result, system') := by
    split <;> exact ⟨_, _, _, rfl⟩
  obtain ⟨rest, result, system', hrest⟩ := hends
  exact ⟨_, result, system', transcribe_bind_request.2 ⟨_, _, rfl,
    transcribe_bind_request.2 ⟨_, rest, hserve, hrest, rfl⟩, rfl⟩⟩

/-! ## The whole attempt -/

/-- An attempt to bind an event. Of the engine it asked `asked`; the first part of that, `choosing`,
led to what was `chosen`. -/
structure Attempt (engine : Engine σ) (event : Event) (queue : QueueRef)
    (command : Option CommandRef) (recorded : Bool) (system system' : System σ)
    (asked choosing : List Answered) (chosen : Except Failure CommandRef)
    (result : Except Failure Unit) : Prop where
  /-- A position is chosen by what the engine answers. -/
  selects : Selects queue command choosing chosen
  /-- After that the engine is only asked for the id of the queue. -/
  asked_eq : ∃ rest, asked = choosing ++ rest ∧ ∀ x ∈ rest, ∃ id, x = ⟨.queueId queue, id⟩
  /-- Nothing is enqueued exactly if the caller names a command or the queue profiles and ends with
  a visible command. -/
  unmarked : markersOf asked = [] ↔ command.isSome ∨ EndsVisibly queue choosing
  /-- Otherwise one marker is asked for. It waits for nothing, and is timed exactly if the queue
  profiles. -/
  marked : markersOf asked ≠ [] → ∃ profiling, ⟨.profiling queue, profiling⟩ ∈ choosing ∧
    markersOf asked = [(queue, ⟨.forProfiling profiling, []⟩)]
  /-- The attempt fails exactly if there is no position, for the reason that there is none. -/
  result_eq : result = chosen.map fun _ => ()
  /-- A command that the caller names is refused as an invalid value. -/
  refused : ∀ failure, result = .error failure → command.isSome → failure.kind = .invalidValue
  /-- Where no command is named, an attempt fails as the engine refuses the marker. -/
  passed_on : ∀ failure, result = .error failure → command = none →
    ∃ timing, ⟨.enqueueMarker queue ⟨timing, []⟩, .error failure⟩ ∈ asked
  /-- An event that is bound is at the position. -/
  position : ∀ c, chosen = .ok c → (system'.binding event).position? = some c
  /-- Whether it counts as recorded stays as it is where the event was there before. -/
  recorded_of_same : ∀ c, chosen = .ok c → (system.binding event).position? = some c →
    (system'.binding event).recorded = (system.binding event).recorded
  /-- Otherwise it is what the caller asked for. -/
  recorded_of_other : ∀ c, chosen = .ok c → (system.binding event).position? ≠ some c →
    (system'.binding event).recorded = recorded
  /-- Without a position the binding stays as it is. -/
  unchanged : ∀ failure, chosen = .error failure → system'.binding event = system.binding event
  /-- Other events stay as they are. -/
  others : ∀ other : Event, other.ordinal ≠ event.ordinal → system'.cell other = system.cell other
  /-- No event is made. -/
  length_eq : system'.cells.length = system.cells.length
  /-- Tables hold the events that they held. -/
  tables_eq : system'.tables = system.tables
  /-- The lock is given back. -/
  released : (system'.cell event).holder = none
  /-- The engine gets to its new state by answering what it was asked. -/
  replies : ∃ entries, engine.Replies system.engine asked entries system'.engine

/-- What is left of an attempt in the cells of events. -/
theorem cells_of_addMarker {event : Event} {queue : QueueRef} {command : Option CommandRef}
    {recorded : Bool} {result : Except Failure Unit}
    (hmade : event.ordinal < system.cells.length)
    (h : (event.addMarker queue command recorded).run.transcribe engine t system =
      some (asked, result, system')) :
    ∃ choosing chosen rest, asked = choosing ++ rest ∧ Selects queue command choosing chosen ∧
      (∀ x ∈ rest, ∃ id, x = ⟨.queueId queue, id⟩) ∧ result = (chosen.map fun _ => ()) ∧
      system'.tables = system.tables ∧ system'.cells = (system.withBinding event
        ((system.binding event).after recorded chosen)).cells := by
  rw [Event.addMarker_eq] at h
  obtain ⟨hfree, inner, hbody, rfl⟩ := transcribe_locking.1 h
  obtain ⟨choosing, chosen, mid, rest, hchoose, rfl, hrest⟩ := transcribe_bind.1 hbody
  obtain ⟨hcells, htables⟩ := (consults_choosePosition queue command).cells_eq hchoose
  refine ⟨choosing, chosen, rest, rfl, selects_of_choosePosition hchoose, ?_⟩
  have hheld : mid.binding event = system.binding event :=
    (System.binding_congr hcells event).trans (system.binding_heldBy (some t) event)
  rcases hrest with ⟨failure, rfl, rfl, rfl, rfl⟩ | ⟨c, rfl, hbind⟩
  · refine ⟨nofun, rfl, htables, System.cells_released (t := t) hmade hfree ?_⟩
    rw [Binding.after, ← system.binding_heldBy (some t), System.withBinding_self]
    exact hcells
  · obtain ⟨⟨id, rfl⟩, rfl, htables', hcells'⟩ := bindTo_run hbind
    refine ⟨fun x hx => ⟨id, List.mem_singleton.1 hx⟩, rfl, htables'.trans htables,
      System.cells_released (t := t) hmade hfree ?_⟩
    rw [hcells', hheld]
    exact System.withBinding_congr hcells event _

/-- Whatever the engine answers, an attempt that has a result is as described. -/
theorem attempt_of_transcribe {event : Event} {queue : QueueRef} {command : Option CommandRef}
    {recorded : Bool} {result : Except Failure Unit}
    (hmade : event.ordinal < system.cells.length)
    (h : (event.addMarker queue command recorded).run.transcribe engine t system =
      some (asked, result, system')) :
    ∃ choosing chosen, Attempt engine event queue command recorded system system' asked choosing
      chosen result := by
  obtain ⟨choosing, chosen, rest, rfl, hselects, hrest, rfl, htables, hcells⟩ :=
    cells_of_addMarker hmade h
  have hmarkers : markersOf (choosing ++ rest) = markersOf choosing := by
    have hnone : markersOf rest = [] := by
      refine List.filterMap_eq_nil_iff.2 fun x hx => ?_
      obtain ⟨id, rfl⟩ := hrest x hx
      rfl
    rw [markersOf_append, hnone, List.append_nil]
  have hbinding : system'.binding event = (system.binding event).after recorded chosen :=
    (System.binding_congr hcells event).trans (System.binding_withBinding hmade _)
  have hholder : (system'.cell event).holder = none := by
    obtain ⟨hfree, -⟩ := transcribe_locking.1 h
    rw [System.cell_congr hcells, System.withBinding, System.cell_setCell_self hmade]
    exact hfree
  have herror : ∀ failure, (chosen.map fun _ => ()) = .error failure →
      chosen = .error failure := by
    intro failure hfailed
    cases chosen with
    | error => exact congrArg Except.error (Except.error.inj hfailed)
    | ok => cases hfailed
  refine ⟨choosing, chosen,
    { selects := hselects
      asked_eq := ⟨rest, rfl, hrest⟩
      unmarked := by rw [hmarkers]; exact hselects.markersOf_eq_nil_iff
      marked := by rw [hmarkers]; exact hselects.markersOf_eq
      result_eq := rfl
      refused := ?refused
      passed_on := ?passed_on
      position := ?position
      recorded_of_same := ?recorded_of_same
      recorded_of_other := ?recorded_of_other
      unchanged := ?unchanged
      others := ?others
      length_eq := by rw [hcells]; exact List.length_set
      tables_eq := htables
      released := hholder
      replies := Program.replies_of_transcribe h }⟩
  case refused =>
    intro failure hfailed hnamed
    obtain rfl := herror failure hfailed
    exact hselects.kind_of_refused hnamed
  case passed_on =>
    rintro failure hfailed rfl
    obtain rfl := herror failure hfailed
    obtain ⟨timing, hmem⟩ := hselects.mem_of_refused
    exact ⟨timing, List.mem_append_left _ hmem⟩
  case position =>
    rintro c rfl
    rw [hbinding]
    exact Binding.position?_boundTo _ _ _
  case recorded_of_same =>
    rintro c rfl hsame
    rw [hbinding, Binding.after, Binding.boundTo, if_pos hsame]
  case recorded_of_other =>
    rintro c rfl hother
    rw [hbinding, Binding.after, Binding.boundTo, if_neg hother]
    rfl
  case unchanged =>
    rintro failure rfl
    exact hbinding
  case others =>
    intro other hne
    rw [System.cell_congr hcells]
    exact System.cell_setCell_of_ne hne _ _

/-- An attempt has a result if the engine answers and nobody holds the event. -/
theorem exists_transcribe_addMarker (hanswers : engine.Answers) (event : Event) (queue : QueueRef)
    (command : Option CommandRef) (recorded : Bool)
    (hfree : (system.cell event).holder = none) : ∃ asked result system',
      (event.addMarker queue command recorded).run.transcribe engine t system =
        some (asked, result, system') := by
  obtain ⟨choosing, chosen, mid, hchoose⟩ :=
    (consults_choosePosition queue command).exists_transcribe (t := t) hanswers
      (system.heldBy (some t) event)
  cases chosen with
  | error failure =>
    have hbody : (choosePosition queue command >>= event.bindTo queue recorded).run.transcribe
        engine t (system.heldBy (some t) event) = some (choosing ++ [], .error failure, mid) :=
      transcribe_bind.2 ⟨choosing, _, mid, [], hchoose, rfl, .inl ⟨failure, rfl, rfl, rfl, rfl⟩⟩
    exact ⟨_, _, _, transcribe_locking.2 ⟨hfree, mid, hbody, rfl⟩⟩
  | ok c =>
    obtain ⟨rest, result, inner, hbind⟩ := exists_bindTo hanswers event queue recorded c mid
    have hbody : (choosePosition queue command >>= event.bindTo queue recorded).run.transcribe
        engine t (system.heldBy (some t) event) = some (choosing ++ rest, result, inner) :=
      transcribe_bind.2 ⟨choosing, _, mid, rest, hchoose, rfl, .inr ⟨c, rfl, hbind⟩⟩
    exact ⟨_, _, _, transcribe_locking.2 ⟨hfree, inner, hbody, rfl⟩⟩

/-- What comes of binding an event. -/
structure Conforms (engine : Engine σ) (t : ThreadId) (system : System σ) (event : Event)
    (queue : QueueRef) (command : Option CommandRef) (recorded : Bool) : Prop where
  /-- Whatever the engine answers, the attempt is as described. -/
  attempt : ∀ asked result system',
    (event.addMarker queue command recorded).run.transcribe engine t system =
      some (asked, result, system') →
    ∃ choosing chosen, Attempt engine event queue command recorded system system' asked choosing
      chosen result
  /-- If the engine answers and nobody holds the event, the attempt has a result. -/
  ends : engine.Answers → (system.cell event).holder = none → ∃ asked result system',
    (event.addMarker queue command recorded).run.transcribe engine t system =
      some (asked, result, system')

theorem addMarker_conforms (engine : Engine σ) (t : ThreadId) (system : System σ) (event : Event)
    (queue : QueueRef) (command : Option CommandRef) (recorded : Bool)
    (hmade : event.ordinal < system.cells.length) :
    Conforms engine t system event queue command recorded where
  attempt _ _ _ h := attempt_of_transcribe hmade h
  ends hanswers hfree := exists_transcribe_addMarker hanswers event queue command recorded hfree

/-! ### A queue that ends with a barrier -/

namespace Barred

/-- A profiling queue whose newest command callers cannot see, and an event bound to that. -/
def system : System Scripted.State where
  engine :=
    { queues := [{ id := ⟨1⟩, last := some 0 }]
      commands := [{ queue := 0, script := { visible := false } }] }
  cells := [{ binding := .bound 0 false }]

def event : Event := ⟨0, .empty⟩

end Barred

theorem addMarker_conforms_barred :
    0 < Barred.system.cells.length ∧ ∃ asked choosing chosen result system',
      (Barred.event.addMarker 0 none true).run.transcribe Scripted.engine 0 Barred.system =
        some (asked, result, system') ∧
      Attempt Scripted.engine Barred.event 0 none true Barred.system system' asked choosing chosen
        result ∧
      markersOf asked = [(0, ⟨.timed, []⟩)] ∧ system'.binding Barred.event = .bound 1 true := by
  have hmade : 0 < Barred.system.cells.length := by decide
  have hconforms : Conforms Scripted.engine 0 Barred.system Barred.event 0 none true :=
    addMarker_conforms _ _ _ _ _ _ _ hmade
  have hanswers : Scripted.engine.Answers := by
    intro request state _
    cases request <;> rfl
  obtain ⟨asked, result, system', hrun⟩ := hconforms.ends hanswers rfl
  obtain ⟨choosing, chosen, hattempt⟩ := hconforms.attempt asked result system' hrun
  refine ⟨hmade, asked, choosing, chosen, result, system', hrun, hattempt, ?_⟩
  cases hrun
  exact ⟨rfl, rfl⟩

end Event

end SyncPoint
