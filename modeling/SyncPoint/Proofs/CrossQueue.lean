import SyncPoint.Proofs.Machine.Calls
import SyncPoint.Proofs.Machine.Schedule

/-!
# Order across queues

A queue that was made to wait for an event holds back all that it accepts afterwards until what the
event captured has run, and the order is handed on when an event is recorded on that queue and
another queue is made to wait for it.  `Relayed` is such a chain of any length, and
`Relayed.not_overtaken` says that nothing on the last queue overtakes what the first event captured.

The argument has two halves.  A wait makes the queue cover the event's position
(`Relayed.covers`), so later commands require it; and what a command requires has run before its
worker reads the clock for it (`World.Sound.complete_of_executing`).
-/

namespace SyncPoint.Host.Machine

/-- In `s`, queue `q` has been made to wait for `c`: for an event bound to it, or for one recorded
on a queue that had itself been made to wait for it. -/
inductive Relayed (c : CommandRef) : Machine → QueueRef → Prop
  | wait {s s' : Machine} {t : ThreadId} {event : Event} {q : QueueRef} {h : History}
      (hreachable : s.Reachable) (hwait : Returns t (.streamWait event q) s h (.ok ()) s')
      (hbound : (s'.system.binding event).position? = some c) : Relayed c s' q
  | hop {s s₁ s₂ s₃ s₄ : Machine} {t u : ThreadId} {event : Event} {q r : QueueRef}
      {h₁ h₂ h₃ h₄ : History} (hrelayed : Relayed c s q) (hrun₁ : Run s h₁ s₁)
      (hrecord : Returns t (.record event q) s₁ h₂ (.ok ()) s₂) (hrun₃ : Run s₂ h₃ s₃)
      (hwait : Returns u (.streamWait event r) s₃ h₄ (.ok ()) s₄)
      (hkept : (s₄.system.binding event).position? = (s₂.system.binding event).position?) :
      Relayed c s₄ r

variable {s s' : Machine} {t : ThreadId} {event : Event} {q : QueueRef} {history : History}
  {c d : CommandRef}

theorem Relayed.sound (h : Relayed c s q) : s.Sound := by
  induction h with
  | wait hreachable hwait => exact (sound_of_reachable hreachable).of_run hwait.run
  | hop _ hrun₁ hrecord hrun₃ hwait _ ih =>
    exact (((ih.of_run hrun₁).of_run hrecord.run).of_run hrun₃).of_run hwait.run

/-- At the end of a chain the last queue covers what the first event captured. -/
theorem Relayed.covers (h : Relayed c s q) : s.world.Covers q c := by
  induction h with
  | wait hreachable hwait hbound =>
    exact covers_of_streamWait (sound_of_reachable hreachable) hwait hbound
  | @hop s s₁ s₂ s₃ s₄ t u event q r h₁ h₂ h₃ h₄ hrelayed hrun₁ hrecord hrun₃ hwait hkept ih =>
    have hsound := hrelayed.sound
    have hsound₁ := hsound.of_run hrun₁
    have hsound₂ := hsound₁.of_run hrecord.run
    have hsound₃ := hsound₂.of_run hrun₃
    -- what the queue covered, the record captures
    obtain ⟨p, hposition, hcaptures⟩ := captures_of_record hsound₁ hrecord
    obtain ⟨m, hm, hmq, hrequires⟩ := ih.grows hsound.world (hsound.grows hrun₁)
    have hgrows := hsound₁.grows hrecord.run
    have hpm := hcaptures.requires hm (by rw [hgrows.queue_command hm, hmq])
    have hpc := hpm.trans (hsound₁.world.requires_grows hgrows hm hrequires)
    -- and the next queue covers what the record captured
    have hcovers := covers_of_streamWait hsound₃ hwait (hkept.trans hposition)
    exact hcovers.trans (hsound₂.world.requires_grows
      ((hsound₂.grows hrun₃).trans (hsound₃.grows hwait.run)) hcaptures.1 hpc)

/-- Nothing that the last queue of a chain accepts afterwards has its clock read, does its work or
completes before all that the first event captured has run. -/
theorem Relayed.not_overtaken (h : Relayed c s q) (hrun : Run s history s')
    (hnew : s.world.commands.length ≤ d) (hqueue : (s'.world.command d).queue = q)
    (hactive : (∃ r, (s'.world.queue r).worker.executing? = some d) ∨
      s'.world.status d = .complete)
    {x : CommandRef} (hx : s'.world.Requires c x) : s'.world.status x = .complete := by
  have hsound := h.sound.of_run hrun
  have hrequires := (h.covers.requires h.sound.world (h.sound.grows hrun) hnew hqueue).trans hx
  rcases hactive with ⟨r, hexecuting⟩ | hcomplete
  · -- what the event captured is older
    obtain ⟨m, hm, -, hmc⟩ := h.covers
    have hcs := Nat.lt_of_le_of_lt (h.sound.world.le_of_requires hmc) hm
    have hxc := hsound.world.le_of_requires hx
    have hxd : x < d := Nat.lt_of_le_of_lt hxc (Nat.lt_of_lt_of_le hcs hnew)
    exact hsound.world.complete_of_executing_of_requires hexecuting hrequires (Nat.ne_of_lt hxd)
  · exact hsound.world.complete_of_requires hcomplete hrequires

/-! ### Three queues in a chain -/

namespace Chain

/-- An event recorded behind work on the first queue, and another event. -/
def recorded : Machine :=
  reached [.call 0 (.newQueue {}), .call 0 (.newQueue {}), .call 0 (.newQueue {}),
    .call 0 (.newEvent .empty), .call 0 (.newEvent .empty), .call 0 (.enqueueWork 0 [.push 1]),
    .call 0 (.record ⟨0, .empty⟩ 0)] (start fun _ => 0)

/-- The second queue waits for the first event. -/
def waited : Machine := recorded.made 0 (.streamWait ⟨0, .empty⟩ 1)

/-- The other event is recorded there. -/
def handed : Machine := waited.made 0 (.record ⟨1, .empty⟩ 1)

/-- The third queue waits for the other event. -/
def chained : Machine := handed.made 0 (.streamWait ⟨1, .empty⟩ 2)

/-- Work for the third queue, whose worker gets to the point of beginning it. -/
def working : List Turn :=
  .call 0 (.enqueueWork 2 [.push 2]) :: (List.replicate 6 (.worker 0) ++
    List.replicate 6 (.worker 1) ++ List.replicate 8 (.worker 2))

end Chain

open Chain in
theorem not_overtaken_chain :
    Relayed 0 chained 2 ∧
      ((reached working chained).world.queue 2).worker.executing? = some 3 ∧
      (reached working chained).world.status 0 = .complete := by
  have hfirst : Relayed 0 waited 1 :=
    .wait ⟨_, _, run_reached (by decide)⟩ (returns_made (by rfl)) (by decide)
  have hchain : Relayed 0 chained 2 :=
    .hop hfirst .refl (returns_made (by rfl)) .refl (returns_made (by rfl)) (by decide)
  have hexecuting : ((reached working chained).world.queue 2).worker.executing? = some 3 := by
    decide
  refine ⟨hchain, hexecuting, ?_⟩
  exact hchain.not_overtaken (run_reached (by decide)) (d := 3) (by decide) (by decide)
    (.inl ⟨2, hexecuting⟩) .refl

end SyncPoint.Host.Machine
