import SyncPoint.Proofs.Machine.Bindings
import SyncPoint.Proofs.Machine.Schedule
import SyncPoint.Proofs.Machine.Timing

/-!
# Measurements of a thread that goes on alone

Where nobody holds the locks of two events, and both are at commands that have run and captured
timestamps, a thread that measures them and goes on alone gets a result (`run_elapsedTime`).
-/

namespace SyncPoint.Host

variable {α : Type} {t : ThreadId} {system system' : System World}

theorem run_ask {request : Request} {next : request.Answer → Program α} {answer : request.Answer}
    (h : System.serve stillEngine t request system = some (answer, system')) :
    (Program.ask request next).run (System.serve stillEngine t) system =
      (next answer).run (System.serve stillEngine t) system' := by
  rw [Program.run, h]

/-- A reading of the world is answered by the world as it is. -/
theorem serve_tell {request : EngineRequest} {answer : request.Answer}
    (h : system.engine.serve request = system.engine.tell answer) :
    System.serve stillEngine t (.engine request) system = some (answer, system) := by
  have hreply : stillEngine.serve request system.engine = system.engine.tell answer := h
  rw [System.serve, hreply]
  simp [World.tell]

/-! ## Locks -/

/-- The system in which the thread holds the lock of the event. -/
def lockedBy (t : ThreadId) (event : Event) (system : System World) : System World :=
  system.setCell event { system.cell event with holder := some t }

theorem binding_lockedBy {event : Event} (hfree : holder system event.ordinal = none)
    (other : Event) : (lockedBy t event system).binding other = system.binding other :=
  (Serves.lock event hfree).binding_eq (fun _ _ heq => by cases heq)

theorem run_locking {event : Event} {body : Program α} {value : α}
    (hfree : holder system event.ordinal = none)
    (hbody : ∃ system', body.run (System.serve stillEngine t) (lockedBy t event system) =
      some (value, system')) :
    ∃ system', (event.locking body).run (System.serve stillEngine t) system =
      some (value, system') := by
  obtain ⟨system', hbody⟩ := hbody
  have hlock : System.serve stillEngine t (.lock event) system =
      some ((), lockedBy t event system) := by
    have hholder : (system.cell event).holder = none := hfree
    rw [System.serve, hholder]
    rfl
  refine ⟨system'.setCell event { system'.cell event with holder := none }, ?_⟩
  refine (run_ask hlock).trans ?_
  show (body.andThen _).run _ _ = _
  rw [Program.run_andThen, hbody]
  rfl

theorem run_guardingBoth {start stop : Event} {operation : Operation α} {result : Except Failure α}
    (hne : start.ordinal ≠ stop.ordinal) (hstart : holder system start.ordinal = none)
    (hstop : holder system stop.ordinal = none)
    (hbody : ∀ locked : System World, locked.engine = system.engine →
      (∀ event, locked.binding event = system.binding event) →
        ∃ system', operation.run.run (System.serve stillEngine t) locked = some (result, system')) :
    ∃ system', (Event.guardingBoth start stop operation).run.run (System.serve stillEngine t)
      system = some (result, system') := by
  have hboth : ∀ first second : Event, first.ordinal ≠ second.ordinal →
      holder system first.ordinal = none → holder system second.ordinal = none →
        ∃ system', (first.guarding (second.guarding operation)).run.run
          (System.serve stillEngine t) system = some (result, system') := by
    intro first second hne hfirst hsecond
    have hsecond' : holder (lockedBy t first system) second.ordinal = none :=
      (holder_setCell_of_ne system first _ hne.symm).trans hsecond
    apply run_locking hfirst
    apply run_locking hsecond'
    apply hbody
    · rfl
    · intro event
      rw [binding_lockedBy hsecond', binding_lockedBy hfirst]
  unfold Event.guardingBoth
  split
  · exact hboth start stop hne hstart hstop
  · exact hboth stop start hne.symm hstop hstart

/-! ## Measuring -/

variable {c d : CommandRef} {times u : Timestamps}

theorem run_isReady (h : system.engine.status c = .complete) :
    (isReady c).run (System.serve stillEngine t) system = some (true, system) := by
  have hstatus : System.serve stillEngine t (.engine (.status c)) system =
      some (.complete, system) := by
    apply serve_tell
    rw [World.serve, h]
  exact run_ask hstatus

theorem run_timestampsOf (h : system.engine.times? c = some times) :
    (timestampsOf c).run.run (System.serve stillEngine t) system = some (.ok times, system) := by
  have htimes : System.serve stillEngine t (.engine (.timestamps c)) system =
      some (some times, system) := by
    apply serve_tell
    rw [World.serve, h]
  exact run_ask htimes

/-- An operation that has a result goes on with it. -/
theorem run_bind {β : Type} {operation : Operation β} {next : β → Operation α} {value : β}
    (h : operation.run.run (System.serve stillEngine t) system = some (.ok value, system')) :
    (operation >>= next).run.run (System.serve stillEngine t) system =
      (next value).run.run (System.serve stillEngine t) system' := by
  show (operation.run.andThen _).run _ _ = _
  rw [Program.run_andThen, h]
  rfl

theorem run_bind_lift {β : Type} {program : Program β} {next : β → Operation α} {value : β}
    (h : program.run (System.serve stillEngine t) system = some (value, system')) :
    ((liftM program : Operation β) >>= next).run.run (System.serve stillEngine t) system =
      (next value).run.run (System.serve stillEngine t) system' := by
  apply run_bind
  show (program.andThen _).run _ _ = _
  rw [Program.run_andThen, h]
  rfl

/-- Different positions are compared from end to end if both are recorded, and otherwise from the
start of the first to the end of the second. -/
theorem run_nanosBetween (start : Event) (first second : Bool) (hcd : c ≠ d)
    (hc : system.engine.times? c = some times) (hd : system.engine.times? d = some u) :
    (start.nanosBetween first second c d).run.run (System.serve stillEngine t) system =
      some (.ok (Elapsed.nanosBetween (if first && second then times.stop else times.start) u.stop),
        system) := by
  refine (run_bind (run_timestampsOf hc)).trans ?_
  cases hboth : first && second with
  | true =>
    have hboth : first = true ∧ second = true := by simpa using hboth
    rw [if_pos ⟨hcd, hboth⟩]
    exact run_bind (run_timestampsOf hd)
  | false =>
    have hnot : ¬ (c ≠ d ∧ first = true ∧ second = true) := by
      rintro ⟨-, rfl, rfl⟩
      cases hboth
    rw [if_neg hnot, if_neg (fun h => hcd h.1)]
    exact run_bind (run_timestampsOf hd)

section Apart

variable {start stop : Event} (hne : start.ordinal ≠ stop.ordinal)
  (henabled : (start.flags.timingDisabled || stop.flags.timingDisabled) = false)
  (hstart : holder system start.ordinal = none) (hstop : holder system stop.ordinal = none)
  (hcd : c ≠ d) (hc : (system.binding start).position? = some c)
  (hd : (system.binding stop).position? = some d) (htimes : system.engine.times? c = some times)
  (hu : system.engine.times? d = some u)
include hne henabled hstart hstop hcd hc hd htimes hu

/-- The difference between two events that nobody holds, at different commands that have run. -/
theorem run_elapsedNanos :
    ∃ system', (start.elapsedNanos stop).run.run (System.serve stillEngine t) system =
      some (.ok (Elapsed.nanosBetween
        (if (system.binding start).recorded && (system.binding stop).recorded then times.stop
          else times.start) u.stop), system') := by
  rw [Event.elapsedNanos, if_neg hne]
  apply run_guardingBoth hne hstart hstop
  intro locked hengine hbinding
  refine ⟨locked, ?_⟩
  rw [← hengine] at htimes hu
  have hbindings : ∀ event, (Program.request (.binding event)).run (System.serve stillEngine t)
      locked = some (system.binding event, locked) := by
    intro event
    rw [← hbinding event]
    rfl
  refine (run_bind_lift (hbindings start)).trans ((run_bind_lift (hbindings stop)).trans ?_)
  rw [hc, hd]
  simp only [henabled]
  refine (run_bind_lift (run_isReady (World.complete_of_times? htimes))).trans ?_
  refine (run_bind_lift (run_isReady (World.complete_of_times? hu))).trans ?_
  exact run_nanosBetween start _ _ hcd htimes hu

/-- Two events that nobody holds, at different commands that have run, are measured. -/
theorem run_elapsedTime :
    ∃ system', (start.elapsedTime stop).run.run (System.serve stillEngine t) system =
      some (.ok (Elapsed.millis (Elapsed.nanosBetween
        (if (system.binding start).recorded && (system.binding stop).recorded then times.stop
          else times.start) u.stop)), system') := by
  obtain ⟨system', hnanos⟩ := run_elapsedNanos (t := t) hne henabled hstart hstop hcd hc hd htimes hu
  exact ⟨system', run_bind hnanos⟩

end Apart

end SyncPoint.Host
