import Mathlib.Data.List.Nodup
import SyncPoint.Proofs.Machine.Effects
import SyncPoint.Proofs.Machine.Schedule

/-!
# Exactly once and in order

What a run has done to the commands of every queue (`ExactlyOnce`): those that have run are the
first that the queue accepted, each was begun once and did its work up to the first panic, and the
rest waits in line.  It holds of every run, whatever callers do to the queues
(`Machine.exactly_once`), so pausing, shutting down or dropping a queue loses nothing.

The effects of a queue's work are those of its completed commands followed by those that the command
in flight has had so far.  That last part is there: a command is completed in a step of its own,
after its work, and what the work has done can be seen before (`Machine.effects_before_completion`).
-/

namespace SyncPoint.Host

open World in
/-- What the run `h` to a world did to its commands. -/
structure ExactlyOnce (h : History) (w : World) : Prop where
  /-- What has run is the beginning of what was accepted. -/
  in_order : ∀ q, w.completed q <+: w.accepted q
  /-- The rest is with the worker and in the inbox. -/
  in_line : ∀ q, w.accepted q =
    w.completed q ++ ((w.queue q).worker.holding ++ (w.queue q).inbox)
  at_most_once : ∀ c, (begun h).count c ≤ 1
  once : ∀ c, w.status c = .complete →
    (begun h).count c = 1 ∧ actionsOf h c = untilPanic (w.command c).work
  /-- Whatever ran was accepted by the queue that ran it. -/
  only_accepted : (∀ c ∈ begun h, c < w.commands.length) ∧
    ∀ q c action, (q, c, action) ∈ actions h → c ∈ w.accepted q
  /-- What a queue's work did, and what that wrote. -/
  effects : ∀ q, actionsOn h q =
    (w.completed q).flatMap (fun c => untilPanic (w.command c).work) ++
      (w.queue q).worker.begun?.elim [] (actionsOf h)
  in_flight : ∀ q c, (w.queue q).worker.begun? = some c →
    actionsOf h c <+: untilPanic (w.command c).work
  traces : ∀ q, (w.queue q).trace = tracesOf h q
  panics : ∀ q, (w.queue q).panics = (actionsOn h q).filterMap Action.payload?
  /-- A command that is refused changes nothing. -/
  refused : ∀ command failure, (w.submit command).value = .error failure →
    (w.submit command).state = w

namespace Machine

variable {s s' : Machine} {h h' : History} {process : Nat → UInt64}

/-- Workers do actions for commands of their own queues. -/
theorem mem_accepted_of_mem_actions (hrun : Run (start process) h s) {q : QueueRef}
    {c : CommandRef} {action : Action} (hmem : (q, c, action) ∈ actions h) :
    c ∈ s.world.accepted q := by
  induction hrun with
  | refl => cases hmem
  | @snoc h l s s' hrun hstep ih =>
    have hsound := (Sound.start process).of_run hrun
    have hprefix := (hsound.grows_of_step hstep).accepted q
    cases hact : l.act? with
    | none =>
      rw [actions_of_none hact] at hmem
      exact hprefix.subset (ih hmem)
    | some act =>
      rw [actions_of_some hact] at hmem
      rcases List.mem_append.1 hmem with hold | hnew
      · exact hprefix.subset (ih hold)
      · obtain rfl := List.mem_singleton.1 hnew
        cases hstep with
        | @worker r w hstep =>
          obtain ⟨⟨d, action'⟩, hacting, heq⟩ := Option.map_eq_some_iff.1 hact
          cases heq
          refine hprefix.subset (hsound.world.mem_accepted_of_mem (List.mem_append_left _ ?_))
          exact Worker.mem_holding_of_acting? hacting
        | enter | ask => cases hact

/-- Every command is executed once and in the order of acceptance, and later states only add to
that. -/
theorem exactly_once (hrun : Run (start process) h s) :
    ExactlyOnce h s.world ∧ ∀ h' s', Run s h' s' → ∀ q,
      s.world.accepted q <+: s'.world.accepted q ∧ s.world.completed q <+: s'.world.completed q := by
  have hsound := (Sound.start process).of_run hrun
  have hexecuted := executed_of_run hrun
  have hlt : ∀ c ∈ begun h, c < s.world.commands.length := by
    intro c hc
    rcases (hexecuted.begun_iff c).1 hc with hcomplete | ⟨q, hq⟩
    · exact World.lt_of_status_eq_complete hcomplete
    · exact (hsound.world.queue_of_mem_holding (Worker.mem_holding_of_begun? hq)).1
  refine ⟨⟨fun q => ⟨_, (hsound.world.line q).symm⟩, hsound.world.line, fun c => ?_,
    fun c hc => ⟨?_, hexecuted.finished c hc⟩,
    ⟨hlt, fun q c action => mem_accepted_of_mem_actions hrun⟩, hexecuted.effects, fun q c hc => ?_,
    hexecuted.written.traces, hexecuted.written.panics, fun _ _ => World.state_of_value_submit⟩, ?_⟩
  · exact List.nodup_iff_count_le_one.1 hexecuted.once c
  · exact List.count_eq_one_of_mem hexecuted.once ((hexecuted.begun_iff c).2 (.inl hc))
  · exact ⟨_, hexecuted.inFlight q c hc⟩
  · intro h' s' hrun' q
    have hgrows := hsound.grows hrun'
    exact ⟨hgrows.accepted q, hgrows.completed hsound.world (hsound.of_run hrun').world q⟩

/-- Work that panics, work that waits behind a closed gate over a shutdown, and refused work. -/
def troubled : List Turn :=
  [.call 0 (.newQueue {}), .call 0 (.enqueueWork 0 [.push 1, .panic (.text "stop"), .push 2])] ++
    List.replicate 7 (.worker 0) ++
    [.call 0 (.setPaused 0 true), .call 0 (.enqueueWork 0 [.push 3]), .worker 0,
      .call 0 (.shutdown 0), .call 0 (.enqueueWork 0 [.push 4]), .call 0 (.setPaused 0 false)] ++
    List.replicate 5 (.worker 0)

theorem exactly_once_troubled :
    ExactlyOnce (told troubled (start fun _ => 0)) (reached troubled (start fun _ => 0)).world ∧
      (reached troubled (start fun _ => 0)).world.accepted 0 = [0, 1] ∧
      (reached troubled (start fun _ => 0)).world.completed 0 = [0, 1] ∧
      ((reached troubled (start fun _ => 0)).world.queue 0).trace = [1, 3] := by
  have hrun : Run (start fun _ => 0) (told troubled _) (reached troubled _) :=
    run_reached (by decide)
  exact ⟨(exactly_once hrun).1, by decide, by decide, by decide⟩

/-- Work that pushes an entry, and the worker up to having done that. -/
def halfway : List Turn :=
  [.call 0 (.newQueue {}), .call 0 (.enqueueWork 0 [.push 7]), .worker 0, .worker 0, .worker 0,
    .worker 0]

/-- What a queue's work has done is not only what its completed commands have: the command in flight
has done something, and is not complete. -/
theorem effects_before_completion :
    ¬ ∀ process h s q, Run (start process) h s → actionsOn h q =
      (s.world.completed q).flatMap fun c => untilPanic (s.world.command c).work := by
  intro hall
  have hrun : Run (start fun _ => 0) (told halfway _) (reached halfway _) :=
    run_reached (by decide)
  have hdone : actionsOn (told halfway (start fun _ => 0)) 0 = [.push 7] := by decide
  have hcompleted : (reached halfway (start fun _ => 0)).world.completed 0 = [] := by decide
  have heffects := hall _ _ _ 0 hrun
  rw [hdone, hcompleted] at heffects
  cases heffects

end Machine

end SyncPoint.Host
