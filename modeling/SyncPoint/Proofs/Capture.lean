import Mathlib.Data.List.Nodup
import SyncPoint.Proofs.Machine.Bindings
import SyncPoint.Proofs.Machine.Calls
import SyncPoint.Proofs.Machine.Effects
import SyncPoint.Proofs.Machine.Schedule

/-!
# What an event captures

Recording an event on a queue captures all that the queue accepted before.  As long as nobody binds
the event anew, a query that finds it ready and a wait for it that ends both mean that all of this
has run, with everything that it requires (`Machine.captured_has_run`).  It does not matter where
the record found the end of the queue: at its newest command or at a marker of its own, and whether
or not the event was bound there already.
-/

namespace SyncPoint.Host

namespace Machine

variable {s s' : Machine} {event : Event} {h : History}

/-- Where nobody binds an event, a query that finds it ready and a wait for it that ends mean that
its position has run. -/
theorem complete_of_look {u : ThreadId} (hsound : s.Sound) (huntouched : Untouched event h)
    (hlook : Returns u (.query event) s h .ready s' ∨ Returns u (.synchronize event) s h () s')
    {p : CommandRef} (hposition : (s.system.binding event).position? = some p) :
    s'.world.status p = .complete := by
  have hinv : ∀ before after x, h = before ++ after → Run s before x →
      x.system.binding event = s.system.binding event := fun before after x hsplit hrun =>
    hrun.binding_eq (hsplit ▸ huntouched).of_append.1
  rcases hlook with hquery | hsynchronize
  · have hevent := hquery.allows.2.events event (by simp [Call.events])
    exact hquery.ensures hsound _ hinv (ensures_query hevent) rfl p hposition
  · have hevent := hsynchronize.allows.2.events event (by simp [Call.events])
    exact hsynchronize.ensures hsound _ hinv (ensures_synchronize hevent) p hposition

/-- Once an event that was recorded on a queue is found ready, or a wait for it has ended, every
command that was on the queue before has run and done its work, and so has all that it requires. -/
theorem captured_has_run {process : Nat → UInt64} {s₁ s₂ s₃ s₄ : Machine} {h₀ h₁ h₂ h₃ : History}
    {t u : ThreadId} {q : QueueRef} (hrun : Run (start process) h₀ s₁)
    (hrecord : Returns t (.record event q) s₁ h₁ (.ok ()) s₂) (hlater : Run s₂ h₂ s₃)
    (hlook : Returns u (.query event) s₃ h₃ .ready s₄ ∨ Returns u (.synchronize event) s₃ h₃ () s₄)
    (huntouched : Untouched event (h₂ ++ h₃)) {d : CommandRef}
    (hd : d < s₁.world.commands.length) (hq : (s₁.world.command d).queue = q) {x : CommandRef}
    (hx : s₁.world.Requires d x) :
    s₄.world.status x = .complete ∧ (begun (h₀ ++ h₁ ++ h₂ ++ h₃)).count x = 1 ∧
      actionsOf (h₀ ++ h₁ ++ h₂ ++ h₃) x = untilPanic (s₄.world.command x).work := by
  have hsound₁ := (Sound.start process).of_run hrun
  have hsound₂ := hsound₁.of_run hrecord.run
  have hsound₃ := hsound₂.of_run hlater
  obtain ⟨hbefore, hduring⟩ := huntouched.of_append
  -- the position that the record chose requires the command
  obtain ⟨p, hposition, hcaptures⟩ := captures_of_record hsound₁ hrecord
  have hgrows := hsound₁.grows hrecord.run
  have hpd := hcaptures.requires hd ((hgrows.queue_command hd).trans hq)
  have hpx := hpd.trans (hsound₁.world.requires_grows hgrows hd hx)
  -- and it has run
  have hlook₄ : Run s₃ h₃ s₄ := hlook.elim Returns.run Returns.run
  have hcomplete := complete_of_look hsound₃ hduring hlook
    ((congrArg Binding.position? (hlater.binding_eq hbefore)).trans hposition)
  have hgrows' := (hsound₂.grows hlater).trans (hsound₃.grows hlook₄)
  have hpx' := hsound₂.world.requires_grows hgrows' hcaptures.1 hpx
  have hx' := (hsound₃.of_run hlook₄).world.complete_of_requires hcomplete hpx'
  have hexecuted := executed_of_run (((hrun.trans hrecord.run).trans hlater).trans hlook₄)
  exact ⟨hx', List.count_eq_one_of_mem hexecuted.once ((hexecuted.begun_iff x).2 (.inl hx')),
    hexecuted.finished x hx'⟩

/-! ### A marker that waits for another queue's work -/

namespace Dependent

/-- Work on one queue, a marker on another that waits for it, and an event. -/
def enqueuing : List Turn :=
  [.call 0 (.newQueue {}), .call 0 (.newQueue {}), .call 0 (.newEvent .empty),
    .call 0 (.enqueueWork 0 [.push 1]), .call 0 (.enqueueMarker 1 ⟨.timed, [0]⟩)]

/-- Both workers, until they have nothing left to do. -/
def working : List Turn := List.replicate 6 (.worker 0) ++ List.replicate 6 (.worker 1)

def enqueued : Machine := reached enqueuing (start fun _ => 0)

def recorded : Machine := enqueued.made 0 (.record ⟨0, .empty⟩ 1)

def worked : Machine := reached working recorded

def queried : Machine := worked.made 1 (.query ⟨0, .empty⟩)

/-- All steps from the beginning. -/
def steps : History :=
  told enqueuing (start fun _ => 0) ++ enqueued.asked 0 (.record ⟨0, .empty⟩ 1) ++
    told working recorded ++ worked.asked 1 (.query ⟨0, .empty⟩)

end Dependent

open Dependent in
theorem captured_has_run_dependent :
    Returns 1 (.query ⟨0, .empty⟩) worked (worked.asked 1 (.query ⟨0, .empty⟩)) .ready queried ∧
      enqueued.world.Requires 1 0 ∧ queried.world.status 0 = .complete ∧
      (begun steps).count 0 = 1 ∧ actionsOf steps 0 = untilPanic (queried.world.command 0).work := by
  have hquery : Returns 1 (.query ⟨0, .empty⟩) worked (worked.asked 1 (.query ⟨0, .empty⟩)) .ready
      queried := returns_made (by decide)
  have hrequires : enqueued.world.Requires 1 0 := .single (.inl (by decide))
  refine ⟨hquery, hrequires, ?_⟩
  exact captured_has_run (run_reached (by decide)) (returns_made (by rfl))
    (run_reached (by decide)) (.inl hquery) (by decide) (d := 1) (by decide) (by decide) hrequires

end Machine

end SyncPoint.Host
