import SyncPoint.Proofs.Machine.Abandonment
import SyncPoint.Proofs.Machine.Containment
import SyncPoint.Proofs.Machine.Effects
import SyncPoint.Proofs.Machine.Schedule
import SyncPoint.Scenario.Host

/-!
# Panics are contained

Work that panics might as well return: where all work returns instead, and everybody makes the same
steps, every state is the same but for what is reported (`Machine.panics_contained`).  So a panic
skips neither the end of its command nor anything that comes after it.  What is reported is one error
for every command whose work ended in a panic, queue by queue in the order of acceptance.

That holds of work which panics with what can be dropped (`Machine.Allows.droppable`).  What a panic
carries is dropped when it has been reported, where no panic is caught, so that one which panics
when it is dropped ends the worker (`Machine.explosive_not_contained`).
-/

namespace SyncPoint.Host

/-! ## Reports -/

/-- The payload of the panic in which a command's work ends, if it does. -/
def Command.panic? (command : Command) : Option PanicPayload :=
  command.work.findSome? Action.payload?

/-- The command whose work the worker has done, to its end or to its panic. -/
def Worker.worked? : Worker → Option CommandRef
  | .running c _ [] | .finishing c _ => some c
  | _ => none

/-- The commands of a queue whose work has been done, in order. -/
def World.worked (w : World) (q : QueueRef) : List CommandRef :=
  w.completed q ++ (w.queue q).worker.worked?.toList

/-- The text with which a panic is reported: its own, if it carries one, and else a fixed one. -/
def panicText : PanicPayload → String
  | .text message => message
  | .other | .explosive => "unknown panic payload"

/-- The error that a queue reports for a command, if its work panics. -/
def World.panicReport? (w : World) (q : QueueRef) (c : CommandRef) : Option LogEntry :=
  (w.command c).panic?.map fun payload => .workPanicked (w.queue q).id (panicText payload)

theorem payloads_untilPanic (work : List Action) :
    (untilPanic work).filterMap Action.payload? = (work.findSome? Action.payload?).toList := by
  induction work with
  | nil => rfl
  | cons action rest ih =>
    cases action with
    | panic payload => rfl
    | push | see => exact ih

/-- Before the last thing that work does, it has not panicked. -/
theorem payloads_of_untilPanic_eq {work done left : List Action}
    (h : done ++ left = untilPanic work) (hleft : left ≠ []) :
    done.filterMap Action.payload? = [] := by
  induction work generalizing done with
  | nil =>
    obtain ⟨rfl, -⟩ := List.append_eq_nil_iff.1 h
    rfl
  | cons action rest ih =>
    cases done with
    | nil => rfl
    | cons first done =>
      cases action with
      | panic payload =>
        obtain ⟨-, hnone⟩ := List.cons_eq_cons.1 h
        exact absurd (List.append_eq_nil_iff.1 hnone).2 hleft
      | push | see =>
        obtain ⟨rfl, hrest⟩ := List.cons_eq_cons.1 h
        show done.filterMap Action.payload? = []
        exact ih hrest

/-- A queue's panics are those in which the work of its commands ended. -/
theorem Executed.panics {h : History} {w : World} (hexecuted : Executed h w) (q : QueueRef) :
    (w.queue q).panics = (w.worked q).filterMap fun c => (w.command c).panic? := by
  have hcompleted : ((w.completed q).flatMap fun c => untilPanic (w.command c).work).filterMap
      Action.payload? = (w.completed q).filterMap fun c => (w.command c).panic? := by
    rw [List.filterMap_flatMap, List.filterMap_eq_flatMap_toList]
    simp only [payloads_untilPanic]
    rfl
  have hdone : ∀ c, (w.queue q).worker.begun? = some c → (w.queue q).worker.remaining = [] →
      (actionsOf h c).filterMap Action.payload? = (w.command c).panic?.toList := by
    intro c hbegun hremaining
    have hwork := hexecuted.inFlight q c hbegun
    rw [hremaining, untilPanic, List.append_nil] at hwork
    rw [hwork, payloads_untilPanic]
    rfl
  have hinFlight : ((w.queue q).worker.begun?.elim [] (actionsOf h)).filterMap Action.payload? =
      (w.queue q).worker.worked?.toList.filterMap fun c => (w.command c).panic? := by
    cases hplace : (w.queue q).worker with
    | idle | atGate | waiting => rfl
    | finishing c times =>
      refine (hdone c (by rw [hplace]; rfl) (by rw [hplace]; rfl)).trans ?_
      cases hpanic : (w.command c).panic? <;> simp [Worker.worked?, hpanic]
    | running c start remaining =>
      cases remaining with
      | nil =>
        refine (hdone c (by rw [hplace]; rfl) (by rw [hplace]; rfl)).trans ?_
        cases hpanic : (w.command c).panic? <;> simp [Worker.worked?, hpanic]
      | cons action rest =>
        have hwork := hexecuted.inFlight q c (by rw [hplace]; rfl)
        refine payloads_of_untilPanic_eq hwork ?_
        rw [hplace, Worker.remaining, untilPanic_cons]
        exact List.cons_ne_nil _ _
  rw [hexecuted.written.panics, hexecuted.effects, List.filterMap_append, hcompleted, hinFlight,
    World.worked, List.filterMap_append]

/-- The commands whose work has been done are the first ones that the queue took. -/
theorem World.Sound.worked_prefix {w : World} (hsound : w.Sound) (q : QueueRef) :
    w.worked q <+: w.accepted q := by
  rw [hsound.line q, World.worked]
  cases hplace : (w.queue q).worker with
  | idle | atGate | waiting => simp [Worker.worked?]
  | finishing c times => simp [Worker.worked?, Worker.holding]
  | running c start remaining =>
    cases remaining <;> simp [Worker.worked?, Worker.holding]

theorem newPanics_of_run {process : Nat → UInt64} {h : History} {w : World}
    (hexecuted : Executed h w) :
    Scenario.Host.newPanics (World.empty process) w =
      (List.range w.queues.length).flatMap fun q => (w.worked q).filterMap (w.panicReport? q) := by
  have hreport : ∀ payload, PanicPayload.report payload = panicText payload := by
    rintro (message | _) <;> rfl
  have hnone : ∀ q, ((World.empty process).queue q).panics = [] := fun _ => rfl
  unfold Scenario.Host.newPanics
  simp only [hnone, hexecuted.panics, hreport, List.length_nil, List.drop_zero, List.map_filterMap]
  rfl

namespace Machine

variable {s s' : Machine} {h : History} {process : Nat → UInt64}

/-! ## A run and its counterpart -/

/-- `s'` is what `s` is, but for panics. -/
structure SameButPanics (s s' : Machine) : Prop where
  status : ∀ c, s'.world.status c = s.world.status c
  times : ∀ c, s'.world.times? c = s.world.times? c
  /-- Queues have taken the same commands. -/
  accepted : ∀ q, s'.world.accepted q = s.world.accepted q
  /-- What their work has done is the same. -/
  effects : ∀ q, (s'.world.queue q).trace = (s.world.queue q).trace
  /-- In all else, commands and queues are the same, except that work returns where it panics. -/
  commands : ∀ c, s'.world.command c = (s.world.command c).contained
  queues : ∀ q, s'.world.queue q = (s.world.queue q).contained
  clocks : s'.world.clocks = s.world.clocks
  /-- Events are bound and locked alike. -/
  cells : s'.system.cells = s.system.cells
  tables : s'.system.tables = s.system.tables
  log : s'.system.log = s.system.log
  /-- Every thread is in the same call, with the same left to do, or has got the same result. -/
  tasks : ∀ t, s'.tasks t = (s.tasks t).map Task.contained
  /-- Nothing has panicked. -/
  silent : ∀ q, (s'.world.queue q).panics = []

theorem sameButPanics_contained (s : Machine) : SameButPanics s s.contained := by
  have hqueue : ∀ q, s.contained.world.queue q = (s.world.queue q).contained :=
    s.world.queue_contained
  refine ⟨s.world.status_contained, s.world.times?_contained, s.world.accepted_contained,
    fun q => ?_, s.world.command_contained, hqueue, rfl, rfl, rfl, rfl, fun _ => rfl, fun q => ?_⟩
  · rw [hqueue]
    rfl
  · rw [hqueue]
    rfl

/-- What a run to `s` has to do with the run to `s'` in which all work that panics is replaced by
work that does the same and returns. -/
structure PanicsContained (process : Nat → UInt64) (h : History) (s s' : Machine) : Prop where
  /-- The same steps are made, but for those in which work panics. -/
  run : Run (start process) (withoutPanics h) s'
  /-- Threads make the same calls. -/
  calls : entered (withoutPanics h) = (entered h).map containedCall
  /-- At every point of one run, the other is at a point where all is the same but panics. -/
  points : ∀ before after x, h = before ++ after → Run (start process) before x →
    ∃ x', Run (start process) (withoutPanics before) x' ∧ Run x' (withoutPanics after) s' ∧
      SameButPanics x x'
  /-- A call that returns in one run returns the same in the other. -/
  results : ∀ before after x x', h = before ++ after → Run (start process) before x →
    Run (start process) (withoutPanics before) x' → ∀ t call during value y, ¬ call.Panics →
      Returns t call x during value y → ∃ y', Returns t call x' (withoutPanics during) value y'
  /-- So does one that hands over work that panics, where the replaced work is handed over. -/
  handed : ∀ before after x x', h = before ++ after → Run (start process) before x →
    Run (start process) (withoutPanics before) x' → ∀ t q work during value y,
      Returns t (.enqueueWork q work) x during value y →
        ∃ y', Returns t (.enqueueWork q (beforePanic work)) x' (withoutPanics during) value y'
  /-- However the other run goes on, this one can go on, whichever of the work handed over then
  panics with what can be dropped. -/
  follows : ∀ h' y' calls, Run s' h' y' → calls.map containedCall = entered h' →
    (∀ entry ∈ calls, entry.2.Droppable) →
      ∃ h'' y, Run s h'' y ∧ withoutPanics h'' = h' ∧ entered h'' = calls ∧ SameButPanics y y'
  /-- The work of every queue is done in the order of acceptance. -/
  order : ∀ q, s.world.worked q <+: s.world.accepted q
  /-- One error is reported for each of these commands whose work panics, and nothing else is. -/
  reports : Scenario.Host.newPanics (World.empty process) s.world =
    (List.range s.world.queues.length).flatMap fun q =>
      (s.world.worked q).filterMap (s.world.panicReport? q)
  /-- The other run reports nothing. -/
  silent : Scenario.Host.newPanics (World.empty process) s'.world = []

theorem newPanics_of_silent {w w' : World} (hsilent : ∀ q, (w'.queue q).panics = []) :
    Scenario.Host.newPanics w w' = [] := by
  unfold Scenario.Host.newPanics
  simp [hsilent]

/-- Panics change nothing but what is reported: there is one run with the replaced work. -/
theorem panics_contained (hrun : Run (start process) h s) :
    ∃ s', PanicsContained process h s s' ∧
      ∀ s'', Run (start process) (withoutPanics h) s'' → s'' = s' := by
  have hstart := Sound.start process
  have hcontained : ∀ {before : History} {x : Machine}, Run (start process) before x →
      Run (start process) (withoutPanics before) x.contained :=
    fun hbefore => hbefore.contained hstart
  have hsound := hstart.of_run hrun
  refine ⟨s.contained, ?_, fun s'' hrun' => hrun'.unique (hcontained hrun)⟩
  refine ⟨hcontained hrun, entered_withoutPanics h, ?_, ?_, ?_, ?_, hsound.world.worked_prefix,
    newPanics_of_run (executed_of_run hrun), newPanics_of_silent (sameButPanics_contained s).silent⟩
  · rintro before after x rfl hbefore
    obtain ⟨y, hy, hafter⟩ := hrun.split
    obtain rfl := hy.unique hbefore
    have hafter' := hafter.contained (hstart.of_run hbefore)
    exact ⟨y.contained, hcontained hbefore, hafter', sameButPanics_contained y⟩
  · rintro before after x x' - hbefore hbefore' t call during value y hcalm hreturns
    obtain rfl := hbefore'.unique (hcontained hbefore)
    exact ⟨y.contained, hreturns.contained (hstart.of_run hbefore) hcalm⟩
  · rintro before after x x' - hbefore hbefore' t q work during value y hreturns
    obtain rfl := hbefore'.unique (hcontained hbefore)
    exact ⟨y.contained, hreturns.contained_enqueueWork⟩
  · intro h' y' calls hrun' hcalls hdroppable
    obtain ⟨h'', y, hrun'', hh, hcalls', rfl⟩ := hrun'.uncontained hsound hcalls hdroppable
    exact ⟨h'', y, hrun'', hh, hcalls', sameButPanics_contained y⟩

/-! ### Work that panics with what panics when it is dropped -/

namespace Explosive

def work : List Action := [.push 1, .panic .explosive, .push 2]

def making : List Turn := [.call 0 (.newQueue {})]

/-- The work has been handed over. -/
def handed : Machine := (reached making (start fun _ => 0)).enter 0 (.enqueueWork 0 work)

/-- Other work is handed over, too, and the worker goes on up to the panic. -/
def turns : List Turn := .call 0 (.enqueueWork 0 []) :: List.replicate 5 (.worker 0)

def stranded : Machine := reached turns handed

def history : History :=
  told making (start fun _ => 0) ++ [.enter 0 (.enqueueWork 0 work)] ++ told turns handed

/-- The same, with work that returns. -/
def calmTurns : List Turn :=
  making ++ [.call 0 (.enqueueWork 0 (beforePanic work)), .call 0 (.enqueueWork 0 [])] ++
    List.replicate 4 (.worker 0)

def calm : Machine := reached calmTurns (start fun _ => 0)

end Explosive

open Explosive in
/-- Not every panic is contained. One that carries something which panics when it is dropped ends
the worker: its command and those behind it never complete, and the queue takes no more, whereas with
work that returns they complete, and the queue takes what is handed over. -/
theorem explosive_not_contained :
    ∃ h s s', FreeRun (start fun _ => 0) h s ∧ Run (start fun _ => 0) (withoutPanics h) s' ∧
      (∀ h' x, FreeRun s h' x → x.world.status 0 = .pending ∧ x.world.status 1 = .pending) ∧
      (∃ h' x, Run s' h' x ∧ x.world.status 0 = .complete ∧ x.world.status 1 = .complete) ∧
      (s.world.enqueueWork 0 []).value = .error .workerGone ∧
      (s'.world.enqueueWork 0 []).value = .ok 2 := by
  have hmade : FreeRun (start fun _ => 0) (told making _) (reached making _) :=
    .of_run (run_reached (by decide))
  have hleft : Run handed (told turns handed) stranded := run_reached (by decide)
  have hrun : FreeRun (start fun _ => 0) history stranded :=
    (hmade.handOver work (idle_of_idle (by decide)) (by decide)).trans (.of_run hleft)
  have hcalm : Run (start fun _ => 0) (told calmTurns _) calm := run_reached (by decide)
  have hsame : withoutPanics history = told calmTurns (start fun _ => 0) := by rfl
  have habandoned : ∀ c, c < 2 → stranded.world.Abandoned 0 c := by
    intro c hc
    refine ⟨by decide, hc, ?_, fun r hr => ?_⟩
    · have hpending : ∀ c < 2, stranded.world.status c = .pending := by decide
      exact hpending c hc
    · -- there is no other queue
      by_contra hne
      rw [stranded.world.queue_of_le (Nat.pos_of_ne_zero hne)] at hr
      cases hr
  have hrest : Run calm (told (List.replicate 7 (.worker 0)) calm)
      (reached (List.replicate 7 (.worker 0)) calm) := run_reached (by decide)
  refine ⟨history, stranded, calm, hrun, hsame ▸ hcalm, fun h' x hx => ?_, ?_, by decide, by decide⟩
  · exact ⟨(hx.abandoned (habandoned 0 (by decide))).pending,
      (hx.abandoned (habandoned 1 (by decide))).pending⟩
  · exact ⟨_, _, hrest, by decide, by decide⟩

/-! ### Work that panics before an event for which another queue waits -/

namespace Panicking

def event : Event := ⟨0, .empty⟩

/-- Two queues, one of which waits for an event that is recorded behind work that panics; then its
own work panics. -/
def turns : List Turn :=
  [.call 0 (.newQueue {}), .call 0 (.newQueue {}), .call 0 (.newEvent .empty),
    .call 0 (.enqueueWork 0 [.push 1, .panic (.text "stop"), .push 2]),
    .call 0 (.record event 0), .call 0 (.streamWait event 1),
    .call 0 (.enqueueWork 1 [.see 0, .panic .other])] ++ List.replicate 7 (.worker 0) ++
    List.replicate 13 (.worker 1)

def worked : Machine := reached turns (start fun _ => 0)

end Panicking

open Panicking in
theorem panics_contained_waiting :
    ∃ s', PanicsContained (fun _ => 0) (told turns (start fun _ => 0)) worked s' ∧
      (s'.world.queue 0).trace = [1] ∧ s'.world.status 0 = .complete ∧
      Scenario.Host.newPanics (World.empty fun _ => 0) worked.world =
        [.workPanicked ⟨1⟩ "stop", .workPanicked ⟨2⟩ "unknown panic payload"] := by
  have hrun : Run (start fun _ => 0) (told turns (start fun _ => 0)) worked :=
    run_reached (by decide)
  obtain ⟨s', hcontained, -⟩ := panics_contained hrun
  have htrace : (worked.world.queue 0).trace = [1] := by decide
  have hstatus : worked.world.status 0 = .complete := by decide
  obtain ⟨x', hx', hrest, hsame⟩ := hcontained.points _ [] worked (List.append_nil _).symm hrun
  obtain rfl := hrest.eq_of_nil
  exact ⟨s', hcontained, (hsame.effects 0).trans htrace, (hsame.status 0).trans hstatus, by decide⟩

end Machine

end SyncPoint.Host
