import SyncPoint.Proofs.Machine.Concluding
import SyncPoint.Proofs.Machine.Effects
import SyncPoint.Proofs.Machine.Fairness
import SyncPoint.Proofs.Machine.Verdict

/-!
# Shutdown is final and loses nothing

A queue that was shut down, or whose last handle is gone, has taken its last command
(`TakesNothing`): whatever would put a command there fails, and what does not need one goes on as
before, so an event can still be recorded at a command that is there already.  What the queue has
taken runs all the same, unless a gate stays closed (`LosesNothing`), as long as its worker lives:
work ends, it makes no calls itself (`Action`), and what it panics with can be dropped
(`Machine.Allows.droppable`).
-/

namespace SyncPoint.Host

/-- The queue that a call hands a command over to as soon as it begins. -/
def Call.enqueuesOn? : Call → Option QueueRef
  | .enqueueWork q _ | .enqueueMarker q _ | .finish q => some q
  | _ => none

theorem Call.mem_queues_of_enqueuesOn? {call : Call} {q : QueueRef}
    (hcall : call.enqueuesOn? = some q) : q ∈ call.queues := by
  unfold Call.enqueuesOn? at hcall
  split at hcall <;> cases hcall <;> exact List.mem_cons_self

/-- What is handed over to a queue that takes no commands is refused at once. -/
theorem Call.enter_refused {call : Call} {q : QueueRef} {system : System World}
    (hcall : call.enqueuesOn? = some q) (hrefuses : (system.engine.queue q).accepting = false) :
    (call.enter system).2 = system ∧ ∃ value, (call.enter system).1 = .done value ∧
      call.failureKind? value = some .resourceExhausted := by
  have hsubmit : ∀ command : Command, command.queue = q →
      system.engine.submit command = { value := .error .queueShutDown, state := system.engine } := by
    rintro command rfl
    exact World.submit_of_not_accepting hrefuses
  have hsettled : ∀ command : Command, command.queue = q →
      (settled system (system.engine.submit command)).2 = system := by
    intro command hqueue
    simp [settled, hsubmit command hqueue]
  unfold Call.enqueuesOn? at hcall
  split at hcall <;> cases hcall
  case h_1 work =>
    refine ⟨hsettled _ rfl, .error .queueShutDown, ?_, rfl⟩
    show Program.done (system.engine.enqueueWork q work).value = _
    rw [World.enqueueWork, hsubmit _ rfl]
  case h_2 request =>
    refine ⟨hsettled _ rfl, .error .queueShutDown, ?_, rfl⟩
    show Program.done (system.engine.enqueueMarker q request).value = _
    rw [World.enqueueMarker, hsubmit _ rfl]
  case h_3 =>
    refine ⟨hsettled _ rfl, .error .queueShutDown, ?_, rfl⟩
    show awaitBarrier (system.engine.enqueueBarrier q).value = _
    rw [World.enqueueBarrier, hsubmit _ rfl]
    rfl

/-- Two events are at one position, and one of them is recorded there: measuring them takes a
marker. -/
structure SharePosition (system : System World) (start stop : Event) (p : CommandRef) : Prop where
  distinct : start.ordinal ≠ stop.ordinal
  start_position : (system.binding start).position? = some p
  stop_position : (system.binding stop).position? = some p
  recorded : (system.binding start).recorded = true ∨ (system.binding stop).recorded = true

namespace SharePosition

variable {system : System World} {a b : Event} {p : CommandRef} (h : SharePosition system a b p)
include h

theorem during {s x : Machine} {history : History} (hx : Machine.During s history x)
    (hsystem : s.system = system) (ha : Untouched a history) (hb : Untouched b history) :
    SharePosition x.system a b p := by
  subst hsystem
  refine ⟨h.distinct, ?_, ?_, ?_⟩
  · rw [hx.binding_eq ha, h.start_position]
  · rw [hx.binding_eq hb, h.stop_position]
  · rw [hx.binding_eq ha, hx.binding_eq hb]
    exact h.recorded

theorem unmarkable (hadvance : system.engine.canAdvance (system.engine.command p).queue = false) :
    unmarkable? system a b = some .resourceExhausted := by
  rw [unmarkable?_of_shared h.start_position h.stop_position h.distinct h.recorded, hadvance]
  rfl

theorem timed (henabled : (a.flags.timingDisabled || b.flags.timingDisabled) = false)
    {times : Timestamps} (htimes : system.engine.times? p = some times) :
    documented? system a b = unmarkable? system a b := by
  have hdone := World.complete_of_times? htimes
  have hready := unready?_of_complete h.start_position h.stop_position henabled ⟨hdone, hdone⟩
  exact documented?_of_timed h.start_position h.stop_position hready (by rw [htimes]; rfl)
    (by rw [htimes]; rfl)

end SharePosition

namespace Machine

/-- The queue takes no command any more. -/
structure TakesNothing (s : Machine) (q : QueueRef) : Prop where
  /-- Whatever comes, the commands that it has accepted stay the same, -/
  kept : ∀ h s', Run s h s' → s'.world.accepted q = s.world.accepted q
  /-- and none of them is ever said to advance. -/
  stalled : ∀ h s', Run s h s' → ∀ c ∈ s.world.accepted q,
    s'.world.serve (.tryAdvance c) = s'.world.tell false
  /-- Whoever hands over a command is refused at once. -/
  refused : ∀ t call, call.enqueuesOn? = some q → s.Idle t → s.Allows call →
    s.Concludes t call fun h result s' => h = [.enter t call] ∧ s'.system = s.system ∧
      call.failureKind? result = some .resourceExhausted
  /-- An event is recorded at the newest command if that can be taken for the end of the queue. -/
  recorded : ∀ t event recorded, s.Idle t → s.Allows (.addMarker event q none recorded) →
    s.Concludes t (.addMarker event q none recorded) fun _ result s' =>
      (s.world.reusable? q = none →
        Call.failureKind? (.addMarker event q none recorded) result = some .resourceExhausted) ∧
      ∀ c, s.world.reusable? q = some c →
        result = .ok () ∧ (s'.system.binding event).position? = some c
  /-- No time is measured that takes a marker on the queue. -/
  measured : ∀ t a b p, s.Idle t → s.Allows (.elapsedTime a b) → p ∈ s.world.accepted q →
    SharePosition s.system a b p → s.Concludes t (.elapsedTime a b) fun h result _ =>
      Untouched a h → Untouched b h → (∀ millis, result ≠ .ok millis) ∧
        ((a.flags.timingDisabled || b.flags.timingDisabled) = false →
          (s.world.times? p).isSome = true →
            Call.failureKind? (.elapsedTime a b) result = some .resourceExhausted)
  /-- No other queue is made to wait for an event that is bound to a command of this one. -/
  waits : ∀ t event r, r ≠ q → s.Idle t → s.Allows (.streamWait event r) →
    s.Concludes t (.streamWait event r) fun h result _ =>
      (∀ x, During s h x →
        ∃ c ∈ x.world.accepted q, (x.system.binding event).position? = some c) →
      Call.failureKind? (.streamWait event r) result = some .resourceExhausted ∧
        ∀ before l after x y, h = before ++ l :: after → Run s before x → Step x l y →
          l.thread? = some t → Undisturbed x.system y.system

/-- Every command that the queue has accepted runs after the run `h`, unless it is held back. -/
structure LosesNothing (h : History) (s : Machine) (q : QueueRef) : Prop where
  /-- Where no worker can go on, a closed gate holds back what the command requires. -/
  held_back : ∀ h' s', Run s h' s' → (∀ r, s'.world.step? r = none) → ∀ c ∈ s.world.accepted q,
    s'.world.status c = .complete ∨ ∃ d, s'.world.Requires c d ∧ s'.world.AtClosedGate d
  /-- Once no such gate is closed any more, the command runs, and does its work exactly once. -/
  runs : ∀ x l, Course x l → x 0 = s → ∀ c ∈ s.world.accepted q, ∀ k,
    (∀ i, k ≤ i → ∀ d, s.world.Requires c d →
      ((x i).world.queue (s.world.command d).queue).paused = false) →
    ∃ n, (x n).world.status c = .complete ∧ (begun (h ++ happened l n)).count c = 1 ∧
      actionsOf (h ++ happened l n) c = untilPanic (s.world.command c).work

variable {s s' x : Machine} {t : ThreadId} {call : Call} {event a b : Event} {q r : QueueRef}
  {p : CommandRef} {h : History} {process : Nat → UInt64}

/-! ## Calls on a queue that takes nothing -/

section Closed

variable (hclosed : s.world.Closed q)
include hclosed

/-- A queue of which somebody has a handle was shut down. -/
theorem not_accepting_of_allows (hallowed : s.Allows call) (hq : q ∈ call.queues) :
    (s.world.queue q).accepting = false := by
  have hhandles := hallowed.queues q hq
  rcases hclosed.2 with hrefuses | hgone
  · exact hrefuses
  · omega

theorem refused_of_closed {result : call.Result} (hcall : call.enqueuesOn? = some q)
    (hreturns : Returns t call s h result s') :
    h = [.enter t call] ∧ s'.system = s.system ∧
      call.failureKind? result = some .resourceExhausted := by
  have hrefuses := not_accepting_of_allows hclosed hreturns.allows.2
    (Call.mem_queues_of_enqueuesOn? hcall)
  obtain ⟨hsame, value, hdone, hkind⟩ := Call.enter_refused hcall hrefuses
  obtain ⟨rfl, rfl, rfl⟩ := hreturns.at_once hdone
  exact ⟨rfl, hsame, hkind⟩

variable (hs : s.Reachable)
include hs

theorem During.closed (hx : During s h x) : x.world.Closed q := by
  obtain ⟨before, after, -, hrun⟩ := hx
  exact hrun.closed (sound_of_reachable hs) hclosed

theorem refuses_of_closed (hrefuses : (s.world.queue q).accepting = false) (hx : During s h x) :
    Refuses s.world q x.system := by
  have hsound := sound_of_reachable hs
  obtain ⟨before, after, -, hrun⟩ := hx
  exact ⟨hsound.grows hrun, (accepted_of_closed hs hclosed hrun).2,
    hrun.not_accepting hsound hclosed.1 hrefuses⟩

/-- What is recorded at the end of the queue is its newest command, or nothing. -/
theorem recorded_of_closed {recorded : Bool} {result : Except Failure Unit}
    (hreturns : Returns t (.addMarker event q none recorded) s h result s') :
    (s.world.reusable? q = none → result = .error .queueShutDown) ∧
      ∀ c, s.world.reusable? q = some c →
        result = .ok () ∧ (s'.system.binding event).position? = some c := by
  have hsound := sound_of_reachable hs
  have hallowed := hreturns.allows.2
  have hrefuses : ∀ system, (∃ x, During s h x ∧ x.system = system) → Refuses s.world q system := by
    rintro _ ⟨x, hx, rfl⟩
    exact refuses_of_closed hclosed hs
      (not_accepting_of_allows hclosed hallowed List.mem_cons_self) hx
  have hevent := hallowed.events event List.mem_cons_self
  have hresult := hreturns.ensures_during hsound (ensures_addMarker_result hevent fun locked _ =>
    ensures_currentPosition_refused hsound.world hclosed.1 hrefuses)
  have hposition := hreturns.ensures_during hsound
    (ensures_addMarker (fun _ p => s.world.reusable? q = some p) (fun _ _ _ _ => id)
      (fun locked _ => ensures_currentPosition_reused hsound.world hclosed.1 hrefuses) hevent)
  refine ⟨fun hnone => ?_, fun c hc => ?_⟩
  · rw [hresult, hnone]
    rfl
  · have hok : result = .ok () := by
      rw [hresult, hc]
      rfl
    obtain ⟨p, hp, hreused⟩ := hposition hok
    cases hc.symm.trans hreused
    exact ⟨hok, hp⟩

/-- Events at a position of the queue cannot be measured for want of a marker, if for nothing
else. -/
theorem measured_of_closed {result : Except Failure Single} (hp : p ∈ s.world.accepted q)
    (hshare : SharePosition s.system a b p)
    (hreturns : Returns t (.elapsedTime a b) s h result s') (ha : Untouched a h)
    (hb : Untouched b h) :
    (∀ millis, result ≠ .ok millis) ∧
      ((a.flags.timingDisabled || b.flags.timingDisabled) = false →
        (s.world.times? p).isSome = true →
          Call.failureKind? (.elapsedTime a b) result = some .resourceExhausted) := by
  obtain ⟨hlt, hqueue⟩ := World.mem_accepted.1 hp
  obtain ⟨⟨x, hx, hkind⟩, -⟩ :=
    verdict_of_elapsedTime hs (fun heq => absurd heq hshare.distinct) hreturns
  have hshare' := hshare.during hx rfl ha hb
  have hclosed' := During.closed hclosed hs hx
  obtain ⟨before, after, -, hbefore⟩ := hx
  have hgrows := (sound_of_reachable hs).grows hbefore
  have hadvance : x.world.canAdvance (x.world.command p).queue = false := by
    rw [hgrows.queue_command hlt, hqueue]
    exact canAdvance_of_closed hclosed'
  have hmarker := hshare'.unmarkable hadvance
  rw [verdict?, if_neg hshare.distinct] at hkind
  refine ⟨?_, fun henabled htimes => ?_⟩
  · rintro millis rfl
    have hnone : documented? x.system a b = none := hkind.symm
    simp [documented?, hmarker] at hnone
  · obtain ⟨times, htimes⟩ := Option.isSome_iff_exists.1 htimes
    rw [hkind, hshare'.timed henabled (hgrows.times? htimes), hmarker]

theorem waits_of_closed {result : Except Failure Unit} (hne : r ≠ q)
    (hreturns : Returns t (.streamWait event r) s h result s')
    (hbound : ∀ x, During s h x →
      ∃ c ∈ x.world.accepted q, (x.system.binding event).position? = some c) :
    result = .error .queueStalled := by
  have hr := lt_of_handles (hreturns.allows.2.queues r List.mem_cons_self)
  have hevent := hreturns.allows.2.events event List.mem_cons_self
  refine hreturns.ensures_during (sound_of_reachable hs)
    (ensures_streamWait_stalled hevent hne hr ?_ ?_)
  · rintro _ ⟨x, hx, rfl⟩
    obtain ⟨c, hc, hposition⟩ := hbound x hx
    exact ⟨c, hposition, hc⟩
  · rintro _ ⟨x, hx, rfl⟩
    exact canAdvance_of_closed (During.closed hclosed hs hx)

end Closed

/-- A call to make a queue wait that fails changes nothing in any step of its own. -/
theorem undisturbed_of_streamWait (hs : s.Reachable) {failure : Failure}
    (hreturns : Returns t (.streamWait event r) s h (.error failure) s')
    {before after : History} {l : Happening} {x y : Machine} (hsplit : h = before ++ l :: after)
    (hrun : Run s before x) (hstep : Step x l y) (hmine : l.thread? = some t) :
    Undisturbed x.system y.system := by
  obtain ⟨rest, rfl, hfirst, hrest⟩ := hreturns
  cases before with
  | nil =>
    cases hsplit
    obtain rfl := hrun.eq_of_nil
    obtain rfl := hstep.unique hfirst
    exact .refl _
  | cons l before =>
    cases hsplit
    obtain ⟨z, hfirst', hrun'⟩ := hrun.uncons
    obtain rfl := hfirst'.unique hfirst
    have hatomic : Atomic t (fun _ => True) failureOf? (event.streamWait r).run s.system :=
      Event.atomic_streamWait event r s.system
    exact hrest.undisturbed ((sound_of_reachable hs).of_step hfirst) (fun _ _ _ _ _ => trivial)
      (tasks_withTask_self ..) hatomic nofun rfl hrun' hstep hmine

/-! ## Queues that were shut down or dropped -/

theorem takesNothing (hs : s.Reachable) (hclosed : s.world.Closed q) : s.TakesNothing q where
  kept h s' hrun := (accepted_of_closed hs hclosed hrun).1
  stalled h s' hrun c hc := by
    obtain ⟨hlt, hqueue⟩ := World.mem_accepted.1 hc
    have hsound := sound_of_reachable hs
    show s'.world.tell (s'.world.canAdvance (s'.world.command c).queue) = _
    rw [(hsound.grows hrun).queue_command hlt, hqueue,
      canAdvance_of_closed (hrun.closed hsound hclosed)]
  refused t call hcall hidle hallowed := by
    refine concludes hs hidle hallowed ?_
    intro h result s' hreturns
    exact refused_of_closed hclosed hcall hreturns
  recorded t event recorded hidle hallowed := by
    refine concludes hs hidle hallowed ?_
    intro h result s' hreturns
    obtain ⟨hnone, hsome⟩ := recorded_of_closed hclosed hs hreturns
    refine ⟨fun hnew => ?_, hsome⟩
    rw [hnone hnew]
    rfl
  measured t a b p hidle hallowed hp hshare := by
    refine concludes hs hidle hallowed ?_
    intro h result s' hreturns ha hb
    exact measured_of_closed hclosed hs hp hshare hreturns ha hb
  waits t event r hne hidle hallowed := by
    refine concludes hs hidle hallowed ?_
    intro h result s' hreturns hbound
    obtain rfl := waits_of_closed hclosed hs hne hreturns hbound
    refine ⟨rfl, ?_⟩
    intro before l after x y hsplit hrun hstep hmine
    exact undisturbed_of_streamWait hs hreturns hsplit hrun hstep hmine

/-- No queue loses what it has accepted. -/
theorem losesNothing (hrun : Run (start process) h s) : LosesNothing h s q where
  held_back h' s' hrun' hstuck c hc := by
    have hsound := (Sound.start process).of_run hrun
    have hlt := Nat.lt_of_lt_of_le (World.mem_accepted.1 hc).1 (hsound.grows hrun').commands_le
    cases hstatus : s'.world.status c with
    | complete => exact .inl rfl
    | pending =>
      obtain ⟨d, hpath, hgate⟩ :=
        (hsound.of_run hrun').world.held_back_at_gate hstuck hlt hstatus
      have hrequires : s'.world.Requires c d := by
        refine Relation.ReflTransGen.mono ?_ c d hpath
        intro e f hheld
        exact hheld.2.1
      exact .inr ⟨d, hrequires, hgate⟩
  runs := by
    rintro x l hcourse rfl c hc k hopen
    have hsound := (Sound.start process).of_run hrun
    have hlt := (World.mem_accepted.1 hc).1
    obtain ⟨n, -, hdone⟩ := hcourse.completes_of_requires (hcourse.sound hsound) hlt hopen
    have hexecuted := executed_of_run (hrun.trans (hcourse.run n))
    have hwork := congrArg Command.work ((hsound.grows (hcourse.run n)).command c hlt)
    refine ⟨n, hdone, ?_, ?_⟩
    · exact List.count_eq_one_of_mem hexecuted.once ((hexecuted.begun_iff c).2 (.inl hdone))
    · rw [hexecuted.finished c hdone, hwork]

/-- A queue that was shut down through any handle, or whose last handle is gone, takes nothing any
more, and loses nothing of what it has taken. -/
theorem shutdown_final (hrun : Run (start process) h s)
    (hclosed : (∃ t, .enter t (.shutdown q) ∈ h) ∨
      q < s.world.queues.length ∧ (s.world.queue q).handles = 0) :
    s.TakesNothing q ∧ LosesNothing h s q := by
  refine ⟨takesNothing ⟨process, h, hrun⟩ ?_, losesNothing hrun⟩
  rcases hclosed with ⟨t, hcall⟩ | ⟨hq, hgone⟩
  · exact hrun.closed_of_shutdown (Sound.start process) hcall
  · exact ⟨hq, .inr hgone⟩

/-- Work that waits behind a closed gate over a shutdown, with an event recorded behind it. -/
def retired : List Turn :=
  [.call 0 (.newQueue {}), .call 0 (.newQueue {}), .call 0 (.newEvent .empty),
    .call 0 (.setPaused 0 true), .call 0 (.enqueueWork 0 [.push 1]),
    .call 0 (.record ⟨0, .empty⟩ 0), .worker 0, .call 0 (.shutdown 0)]

theorem shutdown_final_retired :
    ∃ s, Run (start fun _ => 0) (told retired (start fun _ => 0)) s ∧ s.TakesNothing 0 ∧
      LosesNothing (told retired (start fun _ => 0)) s 0 ∧ s.world.accepted 0 = [0] ∧
      s.world.status 0 = .pending ∧ s.world.reusable? 0 = some 0 := by
  have hrun : Run (start fun _ => 0) (told retired _) (reached retired _) := run_reached (by decide)
  have hcall : .enter 0 (.shutdown 0) ∈ told retired (start fun _ => 0) :=
    List.mem_of_getLast? (by rfl)
  obtain ⟨htakes, hloses⟩ := shutdown_final hrun (.inl ⟨0, hcall⟩)
  exact ⟨_, hrun, htakes, hloses, by decide, by decide, by decide⟩

end Machine

end SyncPoint.Host
