import SyncPoint.Proofs.Host.Containment
import SyncPoint.Proofs.Machine.Replay

/-!
# Runs in which work does not panic

Where threads hand over work that returns where other work panics, and all else is the same, a run
has a counterpart with the same steps, but for those in which work panics.  It leads from state to
state as the run itself does (`Machine.Run.contained`), and whatever can happen in the counterpart
can happen in the run (`Machine.Run.uncontained`).
-/

namespace SyncPoint

/-- The system in whose queues work returns where it panics. -/
def System.contained (system : System Host.World) : System Host.World :=
  { system with engine := system.engine.contained }

namespace Host

/-- The call that hands over work that returns where it panics. -/
def Call.contained : Call → Call
  | .enqueueWork q work => .enqueueWork q (beforePanic work)
  | call => call

def Task.contained : Task → Task
  | ⟨.enqueueWork q work, rest, queues⟩ => ⟨.enqueueWork q (beforePanic work), rest, queues⟩
  | task => task

namespace Happening

/-- In this step, work panics. -/
def panicking : Happening → Bool
  | .worker _ place => place.panicking
  | _ => false

/-- The call that a thread makes in this step. -/
def call? : Happening → Option (ThreadId × Call)
  | .enter t call => some (t, call)
  | _ => none

def contained : Happening → Happening
  | .worker q place => .worker q place.contained
  | .enter t call => .enter t call.contained
  | .ask t request => .ask t request

end Happening

/-- The same steps, but for those in which work panics. -/
def withoutPanics (h : History) : History :=
  (h.filter fun l => !l.panicking).map Happening.contained

/-- The calls that threads made, in order. -/
def entered (h : History) : List (ThreadId × Call) := h.filterMap Happening.call?

theorem entered_append (h h' : History) : entered (h ++ h') = entered h ++ entered h' :=
  List.filterMap_append

/-- The same call of the same thread, with work that returns where it panics. -/
def containedCall (entry : ThreadId × Call) : ThreadId × Call := (entry.1, entry.2.contained)

theorem withoutPanics_append (h h' : History) :
    withoutPanics (h ++ h') = withoutPanics h ++ withoutPanics h' := by
  simp [withoutPanics]

namespace Machine

def contained (s : Machine) : Machine :=
  { system := s.system.contained, tasks := fun t => (s.tasks t).map Task.contained }

end Machine

theorem entered_withoutPanics (h : History) :
    entered (withoutPanics h) = (entered h).map containedCall := by
  induction h with
  | nil => rfl
  | cons l h ih =>
    rw [← List.singleton_append, withoutPanics_append, entered_append, entered_append,
      List.map_append, ih]
    congr 1
    cases l with
    | worker q place =>
      cases hpanicking : place.panicking with
      | true => simp [withoutPanics, Happening.panicking, hpanicking, entered, Happening.call?]
      | false =>
        have hlast : withoutPanics [.worker q place] = [.worker q place.contained] := by
          simp [withoutPanics, Happening.panicking, hpanicking, Happening.contained]
        rw [hlast]
        rfl
    | enter | ask => rfl

/-! ## Calls -/

/-- The call hands over work that panics. -/
def Call.Panics (call : Call) : Prop :=
  ∃ q work payload, call = .enqueueWork q work ∧ .panic payload ∈ work

theorem Call.contained_of_calm {call : Call} (hcalm : ¬ call.Panics) : call.contained = call := by
  cases call with
  | enqueueWork q work =>
    have hwork : ∀ payload, Action.panic payload ∉ work := by
      intro payload hmem
      exact hcalm ⟨q, work, payload, rfl, hmem⟩
    rw [contained, beforePanic_of_calm hwork]
  | _ => rfl

theorem Task.contained_of_call {call : Call} (hcall : call.contained = call)
    (rest : Program call.Result) (queues : List QueueRef) :
    Task.contained ⟨call, rest, queues⟩ = ⟨call, rest, queues⟩ := by
  cases call with
  | enqueueWork q work =>
    injection hcall with _ hwork
    rw [Task.contained, hwork]
  | _ => rfl

theorem Task.unfinished_contained (task : Task) : task.contained.Unfinished ↔ task.Unfinished := by
  obtain ⟨call, rest, queues⟩ := task
  cases call <;> exact Iff.rfl

theorem Task.queues_contained (task : Task) : task.contained.queues = task.queues := by
  obtain ⟨call, rest, queues⟩ := task
  cases call <;> rfl

/-- Every request is answered alike. -/
theorem System.serve_contained (t : ThreadId) (request : Request) (system : System World) :
    System.serve stillEngine t request system.contained =
      (System.serve stillEngine t request system).map fun reply => (reply.1, reply.2.contained) := by
  cases request with
  | engine request =>
    have hserve : stillEngine.serve request system.contained.engine =
        (stillEngine.serve request system.engine).map replyContained :=
      system.engine.serve_contained request
    rw [System.serve, System.serve, hserve]
    cases stillEngine.serve request system.engine <;> rfl
  | lock event | peek event =>
    rw [System.serve, System.serve, show system.contained.cell event = system.cell event from rfl]
    split <;> rfl
  | register ref event =>
    rw [System.serve, System.serve, show system.contained.table ref = system.table ref from rfl]
    split <;> rfl
  | unregister ref handle =>
    rw [System.serve, System.serve, show system.contained.table ref = system.table ref from rfl]
    split <;> rfl
  | newEvent | unlock | binding | bind | find | size | log => rfl

namespace Machine

variable {s s' x y : Machine} {l : Happening} {h : History} {t : ThreadId} {q : QueueRef}

theorem contained_withTask (s : Machine) (t : ThreadId) (task : Task) (system : System World) :
    (s.withTask t task system).contained =
      s.contained.withTask t task.contained system.contained := by
  unfold contained withTask
  congr 1
  funext u
  by_cases hu : u = t <;> simp [hu]

/-- What a call does when it begins, and what is then left of it, is the same. -/
theorem enter_contained (s : Machine) (t : ThreadId) (call : Call) :
    s.contained.enter t call.contained = (s.enter t call).contained := by
  have hengine : s.contained.system.engine = s.system.engine.contained := rfl
  rw [enter, enter, contained_withTask]
  cases call with
  | newQueue | cloneQueue | dropQueue | setPaused | shutdown | enqueueWork | enqueueMarker
  | finish =>
    simp only [Call.contained, Call.enter, hengine, World.addQueue_contained,
      World.cloneHandle_contained, World.dropHandle_contained, World.setPaused_contained,
      World.shutdown_contained, World.enqueueWork_contained, World.enqueueMarker_contained,
      World.enqueueBarrier_contained]
    rfl
  | _ => rfl

theorem idle_contained : s.contained.Idle t ↔ s.Idle t := by
  constructor
  · intro hidle task htask hunfinished
    refine hidle task.contained ?_ ((task.unfinished_contained).2 hunfinished)
    simp [contained, htask]
  · intro hidle task htask hunfinished
    obtain ⟨task', htask', rfl⟩ := Option.map_eq_some_iff.1 htask
    exact hidle task' htask' ((task'.unfinished_contained).1 hunfinished)

theorem inUse_contained : s.contained.InUse q ↔ s.InUse q := by
  constructor
  · rintro ⟨t, task, htask, hunfinished, hq⟩
    obtain ⟨task', htask', rfl⟩ := Option.map_eq_some_iff.1 htask
    rw [task'.queues_contained] at hq
    exact ⟨t, task', htask', (task'.unfinished_contained).1 hunfinished, hq⟩
  · rintro ⟨t, task, htask, hunfinished, hq⟩
    refine ⟨t, task.contained, ?_, (task.unfinished_contained).2 hunfinished, ?_⟩
    · simp [contained, htask]
    · rwa [task.queues_contained]

/-- A call can be made alike, if what its work panics with can be dropped. -/
theorem allows_contained {call : Call} (hdroppable : call.Droppable) :
    s.contained.Allows call.contained ↔ s.Allows call := by
  have hworld : s.contained.world = s.world.contained := rfl
  have hhandles : ∀ q, (s.contained.world.queue q).handles = (s.world.queue q).handles := by
    intro q
    rw [hworld, World.queue_contained]
    rfl
  have hqueues : s.contained.world.queues.length = s.world.queues.length :=
    s.world.length_queues_contained
  have hcommands : s.contained.world.commands.length = s.world.commands.length :=
    s.world.length_commands_contained
  have hsame : ∀ call, s.contained.Allows call ↔ s.Allows call := by
    intro call
    constructor
    · intro h
      refine ⟨fun q hq => ?_, fun c hc => ?_, h.events, h.tables, fun config hconfig => ?_,
        fun q hcall hone => ?_, h.droppable⟩
      · exact hhandles q ▸ h.queues q hq
      · exact hcommands ▸ h.commands c hc
      · exact hqueues ▸ h.numbered config hconfig
      · exact fun huse => h.unused q hcall ((hhandles q).trans hone) (inUse_contained.2 huse)
    · intro h
      refine ⟨fun q hq => ?_, fun c hc => ?_, h.events, h.tables, fun config hconfig => ?_,
        fun q hcall hone => ?_, h.droppable⟩
      · exact (hhandles q).symm ▸ h.queues q hq
      · exact hcommands.symm ▸ h.commands c hc
      · exact hqueues.symm ▸ h.numbered config hconfig
      · exact fun huse => h.unused q hcall ((hhandles q).symm.trans hone) (inUse_contained.1 huse)
  cases call with
  | enqueueWork q work =>
    refine (hsame _).trans ?_
    have hcalm : (Call.enqueueWork q (beforePanic work)).Droppable := by
      rintro _ _ ⟨⟩
      exact not_mem_beforePanic work .explosive
    constructor
    · exact fun h => ⟨h.queues, h.commands, h.events, h.tables, nofun, nofun, hdroppable⟩
    · exact fun h => ⟨h.queues, h.commands, h.events, h.tables, nofun, nofun, hcalm⟩
  | _ => exact hsame _

/-! ## Steps -/

theorem place_contained (s : Machine) (q : QueueRef) :
    (s.contained.world.queue q).worker = (s.world.queue q).worker.contained := by
  rw [show s.contained.world = s.world.contained from rfl, World.queue_contained]
  rfl

theorem contained_withWorld (s : Machine) (w : World) :
    (s.withWorld w).contained = s.contained.withWorld w.contained := rfl

/-- A step in which work panics has no counterpart. -/
theorem Step.contained_eq (hsound : s.Sound) (hstep : Step s l s')
    (hpanicking : l.panicking = true) : s'.contained = s.contained := by
  cases hstep with
  | @worker q w hstep =>
    obtain ⟨w', hw', hsame, -⟩ := World.contained_of_panicking hpanicking
      (hsound.world.alive q) (hsound.world.remaining q)
    obtain rfl := Option.some.inj (hstep.symm.trans hw')
    rw [contained_withWorld, hsame]
    rfl
  | enter | ask => cases hpanicking

/-- What a task asks for does not depend on the work that it handed over. -/
theorem task_contained_ask {call : Call} {request : Request}
    (next : request.Answer → Program call.Result) (queues : List QueueRef) :
    ∃ (call' : Call) (next' : request.Answer → Program call'.Result),
      Task.contained ⟨call, .ask request next, queues⟩ = ⟨call', .ask request next', queues⟩ ∧
        ∀ answer queues', Task.contained ⟨call, next answer, queues'⟩ =
          ⟨call', next' answer, queues'⟩ := by
  cases call <;> exact ⟨_, _, rfl, fun _ _ => rfl⟩

/-- Every other step has a counterpart. -/
theorem Step.contained (hstep : Step s l s') (hgood : l.panicking = false) :
    Step s.contained l.contained s'.contained := by
  cases hstep with
  | @worker q w hstep =>
    have hstep' := World.step?_contained hgood
    rw [hstep] at hstep'
    show Step s.contained (.worker q (s.world.queue q).worker.contained) _
    rw [← place_contained]
    exact .worker hstep'
  | @enter t call hidle hallowed =>
    show Step s.contained (.enter t call.contained) _
    rw [← enter_contained]
    exact .enter (idle_contained.2 hidle) ((allows_contained hallowed.droppable).2 hallowed)
  | @ask t call request next queues answer system htask hserve =>
    obtain ⟨call', next', hasks, hgoes⟩ := task_contained_ask next queues
    have htask' : s.contained.tasks t = some ⟨call', .ask request next', queues⟩ := by
      rw [← hasks]
      exact congrArg (Option.map Task.contained) htask
    have hserve' : System.serve stillEngine t request s.contained.system =
        some (answer, system.contained) := by
      refine (System.serve_contained t request s.system).trans ?_
      rw [hserve]
      rfl
    rw [contained_withTask, hgoes]
    exact .ask htask' hserve'

theorem task_ask_of_contained {task : Task} {call : Call} {request : Request}
    {next : request.Answer → Program call.Result} {queues : List QueueRef}
    (htask : task.contained = ⟨call, .ask request next, queues⟩) :
    ∃ (call' : Call) (next' : request.Answer → Program call'.Result),
      task = ⟨call', .ask request next', queues⟩ ∧
        ∀ answer queues', Task.contained ⟨call', next' answer, queues'⟩ =
          ⟨call, next answer, queues'⟩ := by
  have hunfinished : task.Unfinished := by
    rw [← task.unfinished_contained, htask]
    exact ⟨request, next, rfl⟩
  obtain ⟨call', rest, queues'⟩ := task
  obtain ⟨request', next', rfl⟩ : ∃ request next, rest = .ask request next := hunfinished
  obtain ⟨call'', next'', hasks, hgoes⟩ := task_contained_ask next' queues'
  cases hasks.symm.trans htask
  exact ⟨call', next', rfl, hgoes⟩

/-- A step that the counterpart can make can be made after the panic that may be due, whatever work
a call hands over that returns where the counterpart's work does. -/
theorem Step.uncontained (hsound : s.Sound) (hstep : Step s.contained l y)
    {calls : List (ThreadId × Call)} (hcalls : calls.map containedCall = entered [l])
    (hdroppable : ∀ entry ∈ calls, entry.2.Droppable) :
    ∃ h s', Run s h s' ∧ withoutPanics h = [l] ∧ entered h = calls ∧ s'.contained = y := by
  cases hstep with
  | @worker q w hstep =>
    obtain rfl := List.map_eq_nil_iff.1 hcalls
    have hworker : ∀ {x : Machine}, x.contained = s.contained →
        (x.world.queue q).worker.panicking = false →
          ∃ s', Step x (.worker q (x.world.queue q).worker) s' ∧
            s'.contained = s.contained.withWorld w := by
      intro x hx hcalm
      have hstep' : x.world.contained.step? q = some w := by
        rw [show x.world.contained = s.contained.world from congrArg Machine.world hx]
        exact hstep
      rw [World.step?_contained hcalm] at hstep'
      obtain ⟨w', hw', rfl⟩ := Option.map_eq_some_iff.1 hstep'
      exact ⟨_, .worker hw', by rw [contained_withWorld, hx]⟩
    have hplace : ∀ {x : Machine}, x.contained = s.contained →
        (x.world.queue q).worker.contained = (s.contained.world.queue q).worker := by
      intro x hx
      rw [← place_contained, hx]
    cases hpanicking : (s.world.queue q).worker.panicking with
    | false =>
      obtain ⟨s', hstep', hs'⟩ := hworker rfl hpanicking
      refine ⟨_, s', hstep'.run, ?_, rfl, hs'⟩
      simp [withoutPanics, Happening.panicking, hpanicking, Happening.contained, hplace]
    | true =>
      obtain ⟨w', hw', hsame, hcalm⟩ := World.contained_of_panicking hpanicking
        (hsound.world.alive q) (hsound.world.remaining q)
      have hfirst : Step s (.worker q (s.world.queue q).worker) (s.withWorld w') := .worker hw'
      have hx : (s.withWorld w').contained = s.contained := hfirst.contained_eq hsound hpanicking
      obtain ⟨s', hstep', hs'⟩ := hworker hx hcalm
      refine ⟨_, s', hfirst.run.snoc hstep', ?_, rfl, hs'⟩
      have hcalm' : ((s.withWorld w').world.queue q).worker.panicking = false := hcalm
      simp [withoutPanics, Happening.panicking, hpanicking, hcalm', Happening.contained, hplace hx]
  | @enter t call hidle hallowed =>
    obtain ⟨⟨u, call⟩, rfl, hcall⟩ := List.map_eq_singleton_iff.1 hcalls
    cases hcall
    refine ⟨_, s.enter _ call, (Step.enter (idle_contained.1 hidle) ?_).run, rfl, rfl, ?_⟩
    · exact (allows_contained (hdroppable _ List.mem_cons_self)).1 hallowed
    · exact (enter_contained s _ call).symm
  | @ask t call request next queues answer system htask hserve =>
    obtain rfl := List.map_eq_nil_iff.1 hcalls
    obtain ⟨task, htask', hcontained⟩ := Option.map_eq_some_iff.1 htask
    obtain ⟨call', next', rfl, hgoes⟩ := task_ask_of_contained hcontained
    have hserve' := (System.serve_contained t request s.system).symm.trans hserve
    obtain ⟨⟨answer', system'⟩, hreply, heq⟩ := Option.map_eq_some_iff.1 hserve'
    cases heq
    refine ⟨_, _, (Step.ask htask' hreply).run, rfl, rfl, ?_⟩
    rw [contained_withTask, hgoes]

/-! ## Runs -/

/-- A run has a counterpart. -/
theorem Run.contained (hsound : s.Sound) (hrun : Run s h s') :
    Run s.contained (withoutPanics h) s'.contained := by
  induction hrun with
  | refl => exact .refl
  | @snoc h l x y hrun hstep ih =>
    rw [withoutPanics_append]
    cases hpanicking : l.panicking with
    | true =>
      rw [hstep.contained_eq (hsound.of_run hrun) hpanicking]
      simpa [withoutPanics, hpanicking] using ih
    | false =>
      have hlast : withoutPanics [l] = [l.contained] := by simp [withoutPanics, hpanicking]
      rw [hlast]
      exact ih.snoc (hstep.contained hpanicking)

/-- Whatever the counterpart can do, threads and workers can do where work panics. -/
theorem Run.uncontained (hsound : s.Sound) (hrun : Run s.contained h y)
    {calls : List (ThreadId × Call)} (hcalls : calls.map containedCall = entered h)
    (hdroppable : ∀ entry ∈ calls, entry.2.Droppable) :
    ∃ h' s', Run s h' s' ∧ withoutPanics h' = h ∧ entered h' = calls ∧ s'.contained = y := by
  induction hrun generalizing calls with
  | refl =>
    obtain rfl := List.map_eq_nil_iff.1 hcalls
    exact ⟨[], s, .refl, rfl, rfl, rfl⟩
  | @snoc h l x' y hrun hstep ih =>
    rw [entered_append] at hcalls
    obtain ⟨first, last, rfl, hfirst, hlast⟩ := List.map_eq_append_iff.1 hcalls
    obtain ⟨h₁, s₁, hrun₁, hh₁, hcalls₁, hs₁⟩ :=
      ih hfirst fun entry hentry => hdroppable entry (List.mem_append_left _ hentry)
    rw [← hs₁] at hstep
    obtain ⟨h₂, s₂, hrun₂, hh₂, hcalls₂, hs₂⟩ := hstep.uncontained (hsound.of_run hrun₁) hlast
      fun entry hentry => hdroppable entry (List.mem_append_right _ hentry)
    refine ⟨h₁ ++ h₂, s₂, hrun₁.trans hrun₂, ?_, ?_, hs₂⟩
    · rw [withoutPanics_append, hh₁, hh₂]
    · rw [entered_append, hcalls₁, hcalls₂]

/-! ## Results -/

/-- A call has the same result in the counterpart. -/
theorem Performs.contained {call : Call} {value : call.Result} (hcall : call.contained = call)
    (hsound : s.Sound) (hperforms : Performs t call s h value s') :
    Performs t call s.contained (withoutPanics h) value s'.contained := by
  induction hperforms with
  | @done s value queues htask =>
    have htask' : s.contained.tasks t = some ⟨call, .done value, queues⟩ := by
      rw [← Task.contained_of_call hcall]
      exact congrArg (Option.map Task.contained) htask
    exact .done htask'
  | @step s s₁ s₂ l h value hbusy hstep _ ih =>
    rw [← List.singleton_append, withoutPanics_append]
    cases hpanicking : l.panicking with
    | true =>
      rw [← hstep.contained_eq hsound hpanicking]
      simpa [withoutPanics, hpanicking] using ih (hsound.of_step hstep)
    | false =>
      have hfirst : withoutPanics [l] = [l.contained] := by simp [withoutPanics, hpanicking]
      obtain ⟨task, htask, hcall', hunfinished⟩ := hbusy
      have hbusy' : s.contained.Busy t call := by
        refine ⟨task.contained, congrArg (Option.map Task.contained) htask, ?_,
          (task.unfinished_contained).2 hunfinished⟩
        obtain ⟨call', rest, queues⟩ := task
        obtain rfl : call' = call := hcall'
        rw [Task.contained_of_call hcall]
      rw [hfirst]
      exact .step hbusy' (hstep.contained hpanicking) (ih (hsound.of_step hstep))

theorem Returns.contained {call : Call} {value : call.Result} (hsound : s.Sound)
    (hcalm : ¬ call.Panics) (hreturns : Returns t call s h value s') :
    Returns t call s.contained (withoutPanics h) value s'.contained := by
  have hcall := Call.contained_of_calm hcalm
  obtain ⟨rest, rfl, hfirst, hrest⟩ := hreturns
  have henter : s.contained.enter t call = (s.enter t call).contained := by
    rw [← enter_contained, hcall]
  have hfirst' := hfirst.contained rfl
  rw [← henter] at hfirst'
  refine ⟨withoutPanics rest, ?_, ?_, henter ▸ hrest.contained hcall (hsound.of_step hfirst)⟩
  · show Happening.enter t call.contained :: withoutPanics rest = _
    rw [hcall]
  · have hlabel : (Happening.enter t call).contained = .enter t call := by
      rw [Happening.contained, hcall]
    rwa [hlabel] at hfirst'

/-- Work that returns is handed over with the same result as work that panics. -/
theorem Returns.contained_enqueueWork {work : List Action} {value : Except Failure CommandRef}
    (hreturns : Returns t (.enqueueWork q work) s h value s') :
    Returns t (.enqueueWork q (beforePanic work)) s.contained (withoutPanics h) value
      s'.contained := by
  obtain ⟨hidle, hallowed⟩ := hreturns.allows
  obtain ⟨rfl, rfl, rfl⟩ := hreturns.at_once rfl
  have hallowed' := (allows_contained hallowed.droppable).2 hallowed
  refine ⟨[], rfl, .enter (idle_contained.2 hidle) hallowed', ?_⟩
  have htask : (s.enter t (.enqueueWork q work)).tasks t = some ⟨.enqueueWork q work,
      .done (s.system.engine.enqueueWork q work).value, [q]⟩ := tasks_withTask_self ..
  have henter : s.contained.enter t (.enqueueWork q (beforePanic work)) =
      (s.enter t (.enqueueWork q work)).contained :=
    enter_contained s t (.enqueueWork q work)
  rw [henter]
  have htask' : (s.enter t (.enqueueWork q work)).contained.tasks t =
      some ⟨.enqueueWork q (beforePanic work), .done (s.system.engine.enqueueWork q work).value,
        [q]⟩ := congrArg (Option.map Task.contained) htask
  exact .done htask'

end Machine

end Host

end SyncPoint
