import SyncPoint.Proofs.Machine.Atomic
import SyncPoint.Proofs.Machine.Schedule

/-!
# Calls that fail

A call that fails leaves everything as it was: in no step of its own does it change what an event is
bound to, what a table holds or what a queue has accepted (`Machine.failed_undisturbed`).  Where no
other thread makes a step meanwhile, all of that is the same after the call as before, whatever the
workers did.  An event that finds no room in its table is constructed all the same, but nothing
refers to it.
-/

namespace SyncPoint.Host

/-- The failure that a call returned. -/
def Call.failure? : (call : Call) → call.Result → Option Failure
  | .enqueueWork .., result | .enqueueMarker .., result | .finish _, result
  | .newEvent _, result | .addMarker .., result | .streamWait .., result
  | .elapsedTime .., result | .tableCreate .., result | .tableCreateDefault _, result
  | .tableDestroy .., result
  | .tableGet .., result | .tableRecord .., result | .tableQuery .., result
  | .tableSynchronize .., result | .tableStreamWait .., result
  | .tableElapsedTime .., result => failureOf? result
  | .newQueue _, _ | .cloneQueue _, _ | .dropQueue _, _ | .setPaused .., _ | .shutdown _, _
  | .await _, _ | .isRecorded _, _ | .position? _, _ | .display _, _ | .query _, _
  | .synchronize _, _ | .newTable _, _ | .tableSize _, _ | .tableIsEmpty _, _ => none

/-- The kind of the failure that a call returned. -/
def Call.failureKind? (call : Call) (result : call.Result) : Option FailureKind :=
  (call.failure? result).map Failure.kind

variable {α : Type} {t : ThreadId} {inv : System World → Prop}

theorem atomic_of_never {failed? : α → Option Failure} (h : ∀ value, failed? value = none)
    (program : Program α) (system : System World) : Atomic t inv failed? program system := by
  induction program generalizing system with
  | done value => trivial
  | ask request next ih =>
    intro asked answer system' _ _ _ _
    refine ⟨ih answer system', fun _ => ?_⟩
    exact (ensures_true _ _).imp _ fun _ value _ => h value

theorem succeeds_lift (program : Program α) : Succeeds (liftM program : Operation α).run := by
  induction program with
  | done value => rfl
  | ask request next ih => exact ih

/-- The beginning of a call changes nothing or is followed by success, and so is what comes then. -/
theorem Call.atomic_enter (hinv : ∀ system, inv system → system.engine.Timed) (call : Call)
    (system : System World) :
    Atomic t inv call.failure? (call.enter system).1 (call.enter system).2 ∧
      (Undisturbed system (call.enter system).2 ∨
        Ensures t inv (fun _ value => call.failure? value = none) (call.enter system).1
          (call.enter system).2) := by
  -- a command is handed over at once, or the queue refuses it
  have hsubmit : ∀ (command : Command) (log : List LogEntry),
      Undisturbed system { system with
        engine := (system.engine.submit command).state, log := log } ∨
      ∃ c, (system.engine.submit command).value = .ok c := by
    intro command log
    cases hvalue : (system.engine.submit command).value with
    | ok c => exact .inr ⟨c, rfl⟩
    | error failure =>
      refine .inl ?_
      rw [World.state_of_value_submit hvalue]
      exact ⟨fun _ => rfl, rfl, fun _ => rfl, fun _ => rfl⟩
  cases call with
  | newQueue | cloneQueue | dropQueue | setPaused | shutdown | newTable => exact ⟨trivial, .inr rfl⟩
  | enqueueWork q work =>
    refine ⟨trivial, (hsubmit _ _).imp id ?_⟩
    rintro ⟨c, hc⟩
    exact congrArg failureOf? hc
  | enqueueMarker q request =>
    refine ⟨trivial, (hsubmit _ _).imp id ?_⟩
    rintro ⟨c, hc⟩
    exact congrArg failureOf? hc
  | finish q =>
    refine ⟨(quiet_awaitBarrier _).atomic _, (hsubmit _ _).imp id ?_⟩
    rintro ⟨c, hc⟩
    have hvalue : (system.engine.enqueueBarrier q).value = .ok c := hc
    show Ensures t inv _ (awaitBarrier (system.engine.enqueueBarrier q).value) _
    rw [hvalue]
    intro _ _ _ _ _ _ _
    rfl
  | await | isRecorded | position? | display | query | synchronize | tableSize | tableIsEmpty =>
    exact ⟨atomic_of_never (fun _ => rfl) _ _, .inl (.refl _)⟩
  | newEvent flags => exact ⟨(Table.quiet_create flags).atomic _, .inl (.refl _)⟩
  | addMarker event q command recorded =>
    exact ⟨Event.atomic_addMarker event q command recorded system, .inl (.refl _)⟩
  | streamWait event q => exact ⟨Event.atomic_streamWait event q system, .inl (.refl _)⟩
  | elapsedTime start stop =>
    exact ⟨Event.atomic_elapsedTime hinv start stop system, .inl (.refl _)⟩
  | tableCreate table raw => exact ⟨Table.atomic_create table raw system, .inl (.refl _)⟩
  | tableCreateDefault table =>
    exact ⟨Table.atomic_create table EventFlags.empty.bits system, .inl (.refl _)⟩
  | tableDestroy table handle => exact ⟨Table.atomic_destroy table handle system, .inl (.refl _)⟩
  | tableGet table handle => exact ⟨(Table.quiet_get table handle).atomic _, .inl (.refl _)⟩
  | tableRecord table handle q =>
    exact ⟨Table.atomic_record table handle q system, .inl (.refl _)⟩
  | tableQuery table handle =>
    refine ⟨atomic_bind_quiet (Table.quiet_get table handle) ?_, .inl (.refl _)⟩
    intro system' event
    exact (succeeds_lift event.query).atomic system'
  | tableSynchronize table handle =>
    refine ⟨atomic_bind_request (fun _ => id) ?_, .inl (.refl _)⟩
    intro system₁ _
    refine atomic_bind_quiet (Table.quiet_get table handle) ?_
    intro system₂ event
    exact (succeeds_lift event.synchronize).atomic system₂
  | tableStreamWait table handle q =>
    exact ⟨Table.atomic_streamWait table handle q system, .inl (.refl _)⟩
  | tableElapsedTime table start stop =>
    exact ⟨Table.atomic_elapsedTime hinv table start stop system, .inl (.refl _)⟩

namespace Machine

variable {s s' : Machine} {call : Call} {history : History}

/-- A call that failed changed nothing in any step of its own. -/
theorem Performs.undisturbed {value : call.Result} (h : Performs t call s history value s')
    (hsound : s.Sound)
    (hinv : ∀ before after x, history = before ++ after → Run s before x → inv x.system)
    {rest : Program call.Result} {queues : List QueueRef}
    (htask : s.tasks t = some ⟨call, rest, queues⟩)
    (hatomic : Atomic t inv call.failure? rest s.system) (hfailed : call.failure? value ≠ none)
    {before after : History} {l : Happening} {x y : Machine}
    (hsplit : history = before ++ l :: after) (hrun : Run s before x) (hstep : Step x l y)
    (hmine : l.thread? = some t) : Undisturbed x.system y.system := by
  induction h generalizing before rest queues with
  | done => simp at hsplit
  | @step s s₁ s₂ m history value hbusy hfirst hrest ih =>
    have hsound₁ := hsound.of_step hfirst
    have hinv₁ : ∀ before after x, history = before ++ after → Run s₁ before x → inv x.system := by
      intro before after x hsplit hrun
      exact hinv (m :: before) after x (by rw [hsplit]; rfl) (hfirst.run.trans hrun)
    obtain ⟨request, next, rfl⟩ : ∃ request next, rest = .ask request next := by
      obtain ⟨task, htask', -, hunfinished⟩ := hbusy
      rw [htask] at htask'
      cases htask'
      exact hunfinished
    -- the step may be the first one, or come later
    have hcases : (m = l ∧ x = s ∧ y = s₁) ∨
        ∃ before', history = before' ++ l :: after ∧ Run s₁ before' x := by
      cases before with
      | nil =>
        cases hsplit
        obtain rfl := hrun.eq_of_nil
        exact .inl ⟨rfl, rfl, hstep.unique hfirst⟩
      | cons m' before' =>
        cases hsplit
        obtain ⟨z, hfirst', hrun'⟩ := hrun.uncons
        exact .inr ⟨before', rfl, hfirst'.unique hfirst ▸ hrun'⟩
    by_cases hm : m.thread? = some t
    · obtain rfl := eq_ask_of_step hfirst hm htask
      cases hfirst with
      | @ask _ call' _ next' queues' answer system htask' hserve =>
        rw [htask] at htask'
        cases htask'
        have hserves := serves_of_serve hserve
        have hlater : Later s.system system := ⟨hsound₁.world, hsound₁.filed,
          hsound.grows_of_step (.ask htask hserve), hserves.cells_le⟩
        obtain ⟨hatomic', hsucceeds⟩ := hatomic s.system answer system
          (.refl hsound.world hsound.filed) (hinv [] _ s rfl .refl) hserves hlater
        rcases hcases with ⟨-, rfl, rfl⟩ | ⟨before', hsplit', hrun'⟩
        · refine hserves.undisturbed fun halters => hfailed ?_
          exact hrest.ensures hsound₁ hinv₁ (tasks_withTask_self ..) (hsucceeds halters)
        · exact ih hsound₁ hinv₁ (tasks_withTask_self ..) hatomic' hfailed hsplit' hrun'
    · rcases hcases with ⟨rfl, -, -⟩ | ⟨before', hsplit', hrun'⟩
      · exact absurd hmine hm
      · obtain ⟨hsame, hmeanwhile⟩ := hsound.meanwhile hfirst hm
        exact ih hsound₁ hinv₁ (hsame.trans htask) (hatomic.meanwhile hmeanwhile) hfailed hsplit'
          hrun'

/-- Workers bind no event, touch no table, and hand over no command. -/
theorem Step.undisturbed_of_worker {l : Happening} (hstep : Step s l s') (hl : l.thread? = none)
    (hsound : s.Sound) : Undisturbed s.system s'.system := by
  cases hstep with
  | enter | ask => cases hl
  | @worker q w hstep =>
    have hworks := World.works_of_step? hstep
    have hgrows := World.Grows.of_works hsound.world hworks
    have haccepted : w.accepted = s.world.accepted := by
      refine World.accepted_congr hworks.lengths.2 ?_
      intro c
      rcases Nat.lt_or_ge c s.world.commands.length with hc | hc
      · exact hgrows.queue_command hc
      · rw [World.command_of_le _ hc, World.command_of_le _ (hworks.lengths.2 ▸ hc)]
    refine ⟨fun _ => rfl, rfl, fun r => congrFun haccepted r, fun r => ?_⟩
    have hlast := (hsound.world.of_works hworks).newest r
    rw [haccepted, ← hsound.world.newest r] at hlast
    exact hlast

theorem Run.undisturbed (hrun : Run s history s')
    (hall : ∀ before l after x y, history = before ++ l :: after → Run s before x → Step x l y →
      Undisturbed x.system y.system) : Undisturbed s.system s'.system := by
  induction hrun with
  | refl => exact .refl _
  | @snoc history l x y hrun hstep ih =>
    refine Undisturbed.trans (ih ?_) (hall history l [] x y rfl hrun hstep)
    intro before m after x' y' hsplit hbefore hm
    exact hall before m (after ++ [l]) x' y' (by rw [hsplit, List.append_assoc]; rfl) hbefore hm

/-- What a call of thread `t` did not do, from `s` to `s'`. -/
structure ChangedNothing (t : ThreadId) (s : Machine) (history : History) (s' : Machine) : Prop where
  /-- None of its own steps changed a binding, a table, or what a queue has accepted. -/
  own : ∀ before l after x y, history = before ++ l :: after → Run s before x → Step x l y →
    l.thread? = some t → Undisturbed x.system y.system
  /-- Where only workers made steps besides, all is as before. -/
  alone : (∀ l ∈ history, ∀ u ∈ l.thread?, u = t) → Undisturbed s.system s'.system

/-- A call that returns a failure has changed nothing. -/
theorem failed_undisturbed (hs : s.Reachable) {value : call.Result} {failure : Failure}
    (h : Returns t call s history value s') (hfailed : call.failure? value = some failure) :
    ChangedNothing t s history s' := by
  have hsound := sound_of_reachable hs
  have hrun := h.run
  obtain ⟨rest, rfl, hfirst, hrest⟩ := h
  have hsound' := hsound.of_step hfirst
  have hinv : ∀ before after x, rest = before ++ after → Run (s.enter t call) before x →
      x.world.Timed := by
    intro before after x _ hrun
    exact timed_of_reachable ((hs.run hfirst.run).run hrun)
  have hfailed' : call.failure? value ≠ none := by simp [hfailed]
  have htimed : ∀ system : System World, system.engine.Timed → system.engine.Timed := fun _ => id
  obtain ⟨hatomic, hbegin⟩ := Call.atomic_enter (t := t) htimed call s.system
  have hown : ∀ before l after x y, .enter t call :: rest = before ++ l :: after →
      Run s before x → Step x l y → l.thread? = some t → Undisturbed x.system y.system := by
    intro before l after x y hsplit hbefore hstep hmine
    cases before with
    | nil =>
      cases hsplit
      obtain rfl := hbefore.eq_of_nil
      obtain rfl := hstep.unique hfirst
      rcases hbegin with hsame | hsucceeds
      · exact hsame
      · exact absurd (hrest.ensures hsound' hinv (tasks_withTask_self ..) hsucceeds) hfailed'
    | cons m before' =>
      cases hsplit
      obtain ⟨z, hfirst', hbefore'⟩ := hbefore.uncons
      obtain rfl := hfirst'.unique hfirst
      exact hrest.undisturbed hsound' hinv (tasks_withTask_self ..) hatomic hfailed' rfl hbefore'
        hstep hmine
  refine ⟨hown, fun halone => hrun.undisturbed ?_⟩
  intro before l after x y hsplit hbefore hstep
  cases hthread : l.thread? with
  | none => exact hstep.undisturbed_of_worker hthread (hsound.of_run hbefore)
  | some u =>
    have hl : l ∈ .enter t call :: rest := by simp [hsplit]
    obtain rfl := halone l hl u hthread
    exact hown before l after x y hsplit hbefore hstep hthread

/-! ### A fresh marker that the queue refuses -/

namespace Refused

/-- Two events at one command of a queue, which has run it and is shut down. -/
def preparing : List Turn :=
  [.call 0 (.newQueue {}), .call 0 (.newEvent .empty), .call 0 (.newEvent .empty),
    .call 0 (.enqueueWork 0 [.push 1]), .call 0 (.record ⟨0, .empty⟩ 0),
    .call 0 (.record ⟨1, .empty⟩ 0)] ++ List.replicate 6 (.worker 0) ++ [.call 0 (.shutdown 0)]

def prepared : Machine := reached preparing (start fun _ => 0)

def measuring : Call := .elapsedTime ⟨0, .empty⟩ ⟨1, .empty⟩

end Refused

open Refused in
theorem failed_undisturbed_refused :
    Returns 0 measuring prepared (prepared.asked 0 measuring) (.error .queueShutDown)
        (prepared.made 0 measuring) ∧
      Undisturbed prepared.system (prepared.made 0 measuring).system := by
  have hs : prepared.Reachable := ⟨_, _, run_reached (by decide)⟩
  have hreturns : Returns 0 measuring prepared (prepared.asked 0 measuring)
      (.error .queueShutDown) (prepared.made 0 measuring) := returns_made (by rfl)
  exact ⟨hreturns, (failed_undisturbed hs hreturns rfl).alone (by decide)⟩

end Machine

end SyncPoint.Host
