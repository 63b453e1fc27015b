import SyncPoint.Proofs.Host.Accounting
import SyncPoint.Proofs.Machine.Schedule
import SyncPoint.Proofs.Machine.Takings
import SyncPoint.Proofs.Machine.Timing

/-!
# Which readings a command gets

On a queue with a clock of its own, the `j`-th timed command in the order of acceptance gets the two
readings of its place, whatever the command is and whatever happens on the way
(`Machine.clock_accounted`).  A command is timed by what its queue is and by how it was asked for,
which the history tells (`Machine.HandedOver`).
-/

namespace SyncPoint.Host

/-- The step hands over a marker that is to capture no timestamps. -/
def Happening.asksUntimed : Happening → Bool
  | .enter _ (.enqueueMarker _ request) => request.timing = .untimed
  | .ask _ (.engine (.enqueueMarker _ request)) => request.timing = .untimed
  | _ => false

namespace World

variable {w : World} {command : Command} {c : CommandRef}

/-- A command that comes with a call is timed as it was handed over. -/
theorem timed_submit {untimed : Bool}
    (htimed : command.timed = ((w.queue command.queue).profiling && !untimed))
    (hc : w.commands.length ≤ c) (hc' : c < (w.submit command).state.commands.length) :
    ((w.submit command).state.command c).timed =
      (((w.submit command).state.queue ((w.submit command).state.command c).queue).profiling &&
        !untimed) := by
  cases htakes : w.takes command.queue with
  | false =>
    rw [state_of_not_takes htakes] at hc'
    exact absurd hc' (Nat.not_lt.2 hc)
  | true =>
    rw [commands_submit htakes, List.length_append, List.length_singleton] at hc'
    obtain rfl : c = w.commands.length := Nat.le_antisymm (Nat.lt_succ_iff.1 hc') hc
    rw [command_submit_self htakes, queue_submit_self htakes]
    exact htimed

end World

namespace Machine

variable {process : Nat → UInt64} {s s' : Machine} {l : Happening} {h : History} {q : QueueRef}
  {c : CommandRef} {reading : Nat → UInt64}

theorem accounted_of_reachable (hs : s.Reachable) : s.world.Accounted := by
  obtain ⟨process, h, hrun⟩ := hs
  induction hrun with
  | refl => exact .empty process
  | @snoc h l s s' hrun hstep ih =>
    have hsound := (Sound.start process).of_run hrun
    rcases hsound.world_of_step hstep with ⟨q, -, hworks⟩ | ⟨-, hsame | hcalled⟩
    · exact ih.of_works hsound.world (timed_of_reachable ⟨_, _, hrun⟩) hworks
    · rw [hsame]
      exact ih
    · exact ih.of_called hsound.world hcalled

/-- A command that comes with a step is timed if its queue profiles and the step does not ask for an
untimed one. -/
theorem Step.timed_eq (hstep : Step s l s') (hc : s.world.commands.length ≤ c)
    (hc' : c < s'.world.commands.length) :
    (s'.world.command c).timed =
      ((s'.world.queue (s'.world.command c).queue).profiling && !l.asksUntimed) := by
  have hmarker : ∀ profiling (timing : MarkerTiming),
      (profiling && decide (timing = .timed)) = (profiling && !decide (timing = .untimed)) := by
    intro profiling timing
    cases timing <;> rfl
  cases hstep with
  | worker hstep =>
    have hlength := (World.works_of_step? hstep).lengths.2
    exact absurd (hlength ▸ hc') (Nat.not_lt.2 hc)
  | @enter t call =>
    cases call with
    | enqueueWork q work => exact World.timed_submit (Bool.and_true _).symm hc hc'
    | enqueueMarker q request => exact World.timed_submit (hmarker _ _) hc hc'
    | finish q => exact World.timed_submit (Bool.and_true _).symm hc hc'
    | newQueue config =>
      have hlength := congrArg List.length (s.world.commands_addQueue config)
      exact absurd (Nat.lt_of_lt_of_eq hc' hlength) (Nat.not_lt.2 hc)
    | _ => exact absurd hc' (Nat.not_lt.2 hc)
  | @ask t call request next queues answer system htask hserve =>
    change c < system.engine.commands.length at hc'
    show (system.engine.command c).timed =
      ((system.engine.queue (system.engine.command c).queue).profiling && _)
    cases serves_of_serve hserve with
    | @engine request reply hreply =>
      rcases World.state_of_serve hreply with hsame | ⟨q, marker, rfl, hsubmitted⟩
      · rw [hsame] at hc'
        exact absurd hc' (Nat.not_lt.2 hc)
      · rw [hsubmitted] at hc' ⊢
        exact World.timed_submit (hmarker _ _) hc hc'
    | _ => exact absurd hc' (Nat.not_lt.2 hc)

/-- The queue took the command in this step of the history. -/
def HandedOver (process : Nat → UInt64) (h : History) (c : CommandRef) (taking : Taking)
    (l : Happening) : Prop :=
  ∃ before after x, h = before ++ l :: after ∧ Run (start process) before x ∧
    x.world.commands.length = c ∧ x.taking? l = some taking

theorem HandedOver.snoc {taking : Taking} {l' : Happening}
    (h' : HandedOver process h c taking l) : HandedOver process (h ++ [l']) c taking l := by
  obtain ⟨before, after, x, rfl, hbefore, hc, htaking⟩ := h'
  exact ⟨before, after ++ [l'], x, by simp, hbefore, hc, htaking⟩

/-- Every command was handed over, and is timed if its queue profiles and it was not asked to be
untimed. -/
theorem handedOver_of_run (hrun : Run (start process) h s) (hc : c < s.world.commands.length) :
    ∃ l, HandedOver process h c (s.world.command c).taking l ∧ (s.world.command c).timed =
      ((s.world.queue (s.world.command c).queue).profiling && !l.asksUntimed) := by
  induction hrun with
  | refl => exact absurd hc (Nat.not_lt_zero c)
  | @snoc h l x y hbefore hstep ih =>
    have hsound := (Sound.start process).of_run hbefore
    have hgrows := hsound.grows_of_step hstep
    rcases Nat.lt_or_ge c x.world.commands.length with hold | hnew
    · obtain ⟨l', hover, htimed⟩ := ih hold
      have hqueue := hgrows.queue_command hold
      have hprofiling := (hgrows.queue _ (hsound.world.owner c hold)).2.1
      have hcommand := hgrows.command c hold
      refine ⟨l', ?_, ?_⟩
      · rw [hcommand]
        exact hover.snoc
      · rw [hqueue, hprofiling, hgrows.timed_command hold]
        exact htimed
    · refine ⟨l, ?_, hstep.timed_eq hnew hc⟩
      cases hstep.takes hsound with
      | nothing _ hlength => exact absurd (hlength ▸ hc) (Nat.not_lt.2 hnew)
      | command command htaking htakes hworld =>
        rw [hworld, World.commands_submit htakes, List.length_append,
          List.length_singleton] at hc
        obtain rfl : c = x.world.commands.length := Nat.le_antisymm (Nat.lt_succ_iff.1 hc) hnew
        rw [hworld, World.command_submit_self htakes]
        exact ⟨h, [], x, rfl, hbefore, rfl, htaking⟩

/-- A queue that is made with a clock of its own keeps that clock, and no other queue gets it. -/
theorem ownClock_of_newQueue {t : ThreadId} {config : QueueConfig} {x : Machine} {h' : History}
    (hs : s.Reachable) (hstep : Step s (.enter t (.newQueue config)) x)
    (hchoice : config.clock = .own reading) (hrun : Run x h' s') :
    s'.world.OwnClock s.world.queues.length reading := by
  have hsound := sound_of_reachable hs
  have hmade : (s.world.addQueue config).2.OwnClock s.world.queues.length reading :=
    (accounted_of_reachable hs).clocked.ownClock_addQueue hchoice
  have hworld : x.world = (s.world.addQueue config).2 := by
    cases hstep
    rfl
  have hsound' := hsound.of_step hstep
  rw [← hworld] at hmade
  exact hmade.grows (hsound'.grows hrun) (hsound'.ticks hrun)

/-- What a queue with a clock of its own has read of it. -/
structure ClockAccount (process : Nat → UInt64) (h : History) (s : Machine) (q : QueueRef)
    (reading : Nat → UInt64) : Prop where
  /-- A command is timed exactly if its queue profiles and it was not asked to be untimed. -/
  timed : ∀ c ∈ s.world.accepted q, ∃ l, HandedOver process h c (s.world.command c).taking l ∧
    (s.world.command c).timed = ((s.world.queue q).profiling && !l.asksUntimed)
  /-- A command has timestamps exactly if it has run and is timed. -/
  stamped : ∀ c ∈ s.world.accepted q,
    (s.world.times? c).isSome ↔ s.world.status c = .complete ∧ (s.world.command c).timed = true
  /-- The `j`-th timed command, counted from zero, starts at reading `2 * j + 1` and stops at
  reading `2 * j + 2`. -/
  readings : ∀ (j : Nat) c, (s.world.timedOf q)[j]? = some c → s.world.status c = .complete →
    s.world.times? c = some ⟨reading (2 * j + 1), reading (2 * j + 2)⟩
  /-- No other readings were taken than two for each timed command that has run, and those of the
  command that the worker holds, if that is timed. -/
  taken : s.world.clocks[(s.world.queue q).clock]? =
    some ⟨reading, 2 * (s.world.timedDone q).length + (s.world.queue q).worker.readings⟩
  /-- Timestamps never change, and a command without timestamps that has run never gets any. -/
  kept : ∀ h' s', Run s h' s' → ∀ c, s.world.status c = .complete →
    s'.world.times? c = s.world.times? c
  /-- The readings of a clock that goes on in equal steps. -/
  stepping : ∀ step, reading = Clock.stepping step → ∀ k,
    (reading k).toNat = min (k * step.toNat) (UInt64.size - 1)

theorem clock_accounted (hrun : Run (start process) h s) (hown : s.world.OwnClock q reading) :
    ClockAccount process h s q reading := by
  have hsound := (Sound.start process).of_run hrun
  have htimed := timed_of_reachable ⟨_, _, hrun⟩
  have hcounted := (accounted_of_reachable ⟨_, _, hrun⟩).counted q reading hown
  constructor
  case timed =>
    intro c hc
    obtain ⟨hlt, rfl⟩ := World.mem_accepted.1 hc
    exact handedOver_of_run hrun hlt
  case stamped =>
    intro c hc
    constructor
    · intro hsome
      obtain ⟨times, htimes⟩ := Option.isSome_iff_exists.1 hsome
      have hcomplete := World.complete_of_times? htimes
      rw [htimed.isSome_times? hcomplete] at hsome
      exact ⟨hcomplete, hsome⟩
    · rintro ⟨hcomplete, hwanted⟩
      rw [htimed.isSome_times? hcomplete]
      exact hwanted
  case readings =>
    intro j c hj hcomplete
    exact hcounted.times?_of_complete hsound.world hj hcomplete
  case taken => exact hcounted.clock
  case kept =>
    intro h' s' hrun' c hcomplete
    exact (hsound.grows hrun').times?_of_complete hcomplete
  case stepping =>
    rintro step rfl k
    exact Clock.toNat_stepping step k

/-! ### Work, a marker without timestamps, work that panics, and a barrier -/

namespace Stepped

def first : Machine := reached [.call 0 (.newQueue {})] (start fun _ => 0)

def config : QueueConfig := { clock := .own (Clock.stepping 10) }

/-- The second queue is made, with a clock that goes on in steps of ten. -/
def second : Machine := first.enter 0 (.newQueue config)

def working : List Turn :=
  [.call 0 (.newQueue {}), .call 0 (.enqueueWork 1 [.push 1]),
    .call 0 (.enqueueMarker 1 ⟨.untimed, []⟩),
    .call 0 (.enqueueWork 1 [.push 2, .panic (.text "stop"), .push 3]), .call 0 (.shutdown 1)] ++
    List.replicate 18 (.worker 1)

def worked : Machine := reached working second

end Stepped

open Stepped in
theorem clock_accounted_stepped :
    worked.world.OwnClock 1 (Clock.stepping 10) ∧ worked.world.timedOf 1 = [0, 2] ∧
      worked.world.times? 0 = some ⟨Clock.stepping 10 1, Clock.stepping 10 2⟩ ∧
      worked.world.times? 1 = none ∧
      worked.world.times? 2 = some ⟨Clock.stepping 10 3, Clock.stepping 10 4⟩ := by
  have hfirst : Run (start fun _ => 0) _ first := run_reached (by decide)
  have hsecond : Step first (.enter 0 (.newQueue config)) second :=
    .enter (idle_of_idle (by decide)) (allows_of_permits (by decide))
  have hworked : Run second _ worked := run_reached (by decide)
  have hown : worked.world.OwnClock 1 (Clock.stepping 10) :=
    ownClock_of_newQueue ⟨_, _, hfirst⟩ hsecond rfl hworked
  have haccount : ClockAccount _ _ worked 1 (Clock.stepping 10) :=
    clock_accounted ((hfirst.snoc hsecond).trans hworked) hown
  exact ⟨hown, by decide, haccount.readings 0 0 (by decide) (by decide), by decide,
    haccount.readings 1 2 (by decide) (by decide)⟩

end Machine

end SyncPoint.Host
