import SyncPoint.Proofs.Host.Readings
import SyncPoint.Proofs.Machine.Replay

/-!
# Timestamps in every state

Whoever hands over a command makes it suit its queue (`Machine.Step.suits`), so in every state that a
machine gets to the commands that have run have timestamps exactly if they are timed
(`Machine.timed_of_reachable`), and readings of a clock that never decrease tell the order of
execution (`Machine.timely_of_reachable`).
-/

namespace SyncPoint.Host

namespace World

theorem suits_enqueueWork (w : World) (q : QueueRef) (work : List Action) :
    Command.Suits { queue := q, kind := .work, timed := (w.queue q).profiling, work := work }
      (w.queue q).profiling :=
  ⟨id, fun _ => rfl⟩

theorem suits_enqueueMarker (w : World) (q : QueueRef) (request : MarkerRequest CommandRef) :
    Command.Suits
      { queue := q
        kind := .marker
        timed := (w.queue q).profiling && request.timing = .timed
        waitList := request.waitList }
      (w.queue q).profiling := by
  refine ⟨?_, fun hkind => absurd rfl hkind⟩
  intro htimed
  exact (Bool.and_eq_true_iff.1 htimed).1

theorem suits_enqueueBarrier (w : World) (q : QueueRef) :
    Command.Suits { queue := q, kind := .barrier, timed := (w.queue q).profiling }
      (w.queue q).profiling :=
  ⟨id, fun _ => rfl⟩

end World

namespace Machine

variable {s s' : Machine} {l : Happening} {h : History} {k : ClockRef}

/-- A command that comes with a step suits its queue. -/
theorem Step.suits (hstep : Step s l s') {c : CommandRef} (hc : s.world.commands.length ≤ c)
    (hc' : c < s'.world.commands.length) :
    (s'.world.command c).Suits (s'.world.queue (s'.world.command c).queue).profiling := by
  cases hstep with
  | worker hstep =>
    have hlength := (World.works_of_step? hstep).lengths.2
    exact absurd (hlength ▸ hc') (Nat.not_lt.2 hc)
  | @enter t call =>
    cases call with
    | enqueueWork q work => exact World.suits_submit (s.world.suits_enqueueWork q work) hc hc'
    | enqueueMarker q request =>
      exact World.suits_submit (s.world.suits_enqueueMarker q request) hc hc'
    | finish q => exact World.suits_submit (s.world.suits_enqueueBarrier q) hc hc'
    | newQueue config =>
      have hlength := congrArg List.length (s.world.commands_addQueue config)
      exact absurd (Nat.lt_of_lt_of_eq hc' hlength) (Nat.not_lt.2 hc)
    | _ => exact absurd hc' (Nat.not_lt.2 hc)
  | @ask t call request next queues answer system htask hserve =>
    change c < system.engine.commands.length at hc'
    show (system.engine.command c).Suits (system.engine.queue (system.engine.command c).queue).profiling
    cases serves_of_serve hserve with
    | @engine request reply hreply =>
      rcases World.state_of_serve hreply with hsame | ⟨q, marker, -, hmarker⟩
      · rw [hsame] at hc'
        exact absurd hc' (Nat.not_lt.2 hc)
      · rw [hmarker] at hc' ⊢
        exact World.suits_submit (s.world.suits_enqueueMarker q marker) hc hc'
    | _ => exact absurd hc' (Nat.not_lt.2 hc)

theorem timed_of_reachable (hs : s.Reachable) : s.world.Timed := by
  obtain ⟨process, h, hrun⟩ := hs
  induction hrun with
  | refl => exact World.Timed.empty process
  | @snoc h l s s' hrun hstep ih =>
    have hsound := (Sound.start process).of_run hrun
    rcases hsound.world_of_step hstep with ⟨q, -, hworks⟩ | ⟨-, hsame | hcalled⟩
    · exact ih.of_works hsound.world hworks
    · rw [hsame]
      exact ih
    · exact ih.of_called hsound.world hcalled fun c hc hc' => hstep.suits hc hc'

theorem Sound.ticks_of_step (hsound : s.Sound) (hstep : Step s l s') :
    s.world.Ticks s'.world := by
  rcases hsound.world_of_step hstep with ⟨q, -, hworks⟩ | ⟨-, hsame | hcalled⟩
  · exact .of_works hworks
  · rw [hsame]
    exact .refl _
  · exact .of_called hcalled

theorem Sound.ticks (hsound : s.Sound) (hrun : Run s h s') : s.world.Ticks s'.world := by
  induction hrun with
  | refl => exact .refl _
  | snoc hbefore hstep ih => exact ih.trans ((hsound.of_run hbefore).ticks_of_step hstep)

theorem timely_of_reachable (hs : s.Reachable) (hsteady : s.world.Steady k) :
    s.world.Timely k := by
  obtain ⟨process, h, hrun⟩ := hs
  induction hrun with
  | refl => exact World.Timely.empty process k
  | @snoc h l s s' hrun hstep ih =>
    have hsound := (Sound.start process).of_run hrun
    have hticks := hsound.ticks_of_step hstep
    have hsteady' := hticks.steady hsteady
    have hshown := hticks.shown_le hsteady
    rcases hsound.world_of_step hstep with ⟨q, -, hworks⟩ | ⟨-, hsame | hcalled⟩
    · exact (ih hsteady').of_works hsound.world hworks hshown
    · rw [hsame]
      exact ih hsteady'
    · exact (ih hsteady').of_called hsound.world hcalled hshown

end Machine

end SyncPoint.Host
