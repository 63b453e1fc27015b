import SyncPoint.Proofs.Host.Footprint
import SyncPoint.Proofs.Host.Front

/-!
# Closed gates

A worker looks at its queue's gate once for each command: it has received the command by then and
done nothing for it.  While the gate is closed no command gets past it
(`Works.pastGate?_of_paused`), and only a command that is past it is begun, worked on or completed
(`Worker.pastGate?_of_executing?`, `Sound.pastGate?_of_completes`).  A command that is past the gate
is not held up by it (`Sound.step?_ne_none_of_pastGate?`).
-/

namespace SyncPoint.Host

namespace Worker

/-- The command that the worker has got past the gate and not completed. -/
def pastGate? : Worker → Option CommandRef
  | .waiting c _ | .running c _ _ | .finishing c _ => some c
  | .idle | .atGate _ => none

variable {worker : Worker} {c : CommandRef}

theorem pastGate?_of_executing? (h : worker.executing? = some c) : worker.pastGate? = some c := by
  unfold executing? at h
  split at h <;> cases h <;> rfl

theorem mem_holding_of_pastGate? (h : worker.pastGate? = some c) : c ∈ worker.holding := by
  cases worker with
  | idle | atGate => cases h
  | waiting | running | finishing =>
    cases h
    exact List.mem_cons_self

end Worker

namespace World

variable {w w' : World} {q r : QueueRef} {c : CommandRef}

/-- No command gets past a closed gate. -/
theorem Works.pastGate?_of_paused (h : w.Works r w') (hpaused : (w.queue q).paused = true)
    (hc : (w'.queue q).worker.pastGate? = some c) :
    (w.queue q).worker.pastGate? = some c := by
  by_cases hq : q = r
  · subst r
    have hlt := h.lt
    cases h with
    | receive =>
      rw [w.queue_setQueue_self hlt] at hc
      cases hc
    | enter _ hopen =>
      rw [hopen] at hpaused
      cases hpaused
    | pass hplace =>
      rw [setWorker, w.queue_setQueue_self hlt] at hc
      rw [hplace]
      exact hc
    | act hplace =>
      rw [w.queue_setQueue_self hlt] at hc
      rw [hplace]
      exact hc
    | start hplace | stop hplace =>
      rw [setWorker, queue_setQueue_self _ (by simpa using hlt)] at hc
      rw [hplace]
      exact hc
    | complete =>
      rw [setWorker, queue_setQueue_self _ (by simpa using hlt)] at hc
      cases hc
  · rw [h.queue_of_ne hq] at hc
    exact hc

/-- A command that is past the gate stays past it until it has run. -/
theorem Works.complete_or_pastGate? (h : w.Works r w')
    (hc : (w.queue q).worker.pastGate? = some c) (hlength : c < w.commands.length) :
    w'.status c = .complete ∨ (w'.queue q).worker.pastGate? = some c := by
  by_cases hq : q = r
  · subst r
    have hlt := h.lt
    cases h with
    | receive hplace | enter hplace =>
      rw [hplace] at hc
      cases hc
    | pass hplace =>
      rw [setWorker, w.queue_setQueue_self hlt]
      rw [hplace] at hc
      exact .inr hc
    | act hplace =>
      rw [w.queue_setQueue_self hlt]
      rw [hplace] at hc
      exact .inr hc
    | start hplace | stop hplace =>
      rw [setWorker, queue_setQueue_self _ (by simpa using hlt)]
      rw [hplace] at hc
      exact .inr hc
    | complete hplace =>
      rw [hplace] at hc
      cases hc
      exact .inl ((status_setCommand_complete hlength _ c).2 (.inl rfl))
  · rw [h.queue_of_ne hq]
    exact .inr hc

namespace Sound

variable (h : w.Sound)
include h

theorem queue_of_pastGate? (hc : (w.queue q).worker.pastGate? = some c) :
    c < w.commands.length ∧ (w.command c).queue = q :=
  h.queue_of_mem_holding (Worker.mem_holding_of_pastGate? hc)

/-- A command completes only past the gate of its queue. -/
theorem pastGate?_of_completes (hworks : w.Works r w') (hpending : w.status c = .pending)
    (hcomplete : w'.status c = .complete) :
    (w.queue (w.command c).queue).worker.pastGate? = some c := by
  obtain ⟨times, hplace, -⟩ := hworks.completes hpending hcomplete
  have hpast : (w.queue r).worker.pastGate? = some c := by rw [hplace]; rfl
  rw [(h.queue_of_pastGate? hpast).2]
  exact hpast

/-- Past the gate, a worker is held up only by a command that it waits for. -/
theorem step?_ne_none_of_pastGate? (hc : (w.queue q).worker.pastGate? = some c)
    (hfree : ∀ d ∈ (w.command c).waitList, w.status d = .complete) : w.step? q ≠ none := by
  intro hstuck
  rcases h.place_of_step?_eq_none hstuck with ⟨hplace, -⟩ | ⟨d, hplace, -⟩ |
    ⟨e, d, rest, hplace, hd⟩ <;> rw [hplace] at hc <;> cases hc
  have hwaited := h.waited q
  rw [hplace] at hwaited
  obtain ⟨passed, hsplit, -⟩ := hwaited
  have hcomplete := hfree d (by simp [hsplit])
  rw [hd] at hcomplete
  cases hcomplete

end Sound

end World

end SyncPoint.Host
