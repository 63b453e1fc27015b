import SyncPoint.Proofs.Machine.Concluding
import SyncPoint.Proofs.Machine.Verdict

/-!
# How measurements end

A measurement that somebody asks for ends with what the checks come to at some moment of the call
(`Machine.elapsed_checked`).  For two events these are the documented ones, so that a time is only
told where both have timestamps.  An event that is measured against itself is said to be no time
apart from itself even where its command captured no timestamps, which is documented as a failure
(`Machine.untimed_from_itself`).
-/

namespace SyncPoint.Host.Machine

variable {s s' : Machine} {t : ThreadId} {a b : Event} {h : History}

/-- What becomes of a measurement. -/
structure Checked (s : Machine) (a b : Event) (h : History)
    (result : Except Failure Single) : Prop where
  verdict : ∃ x, During s h x ∧
    Call.failureKind? (.elapsedTime a b) result = verdict? x.system a b
  /-- An event is no time apart from itself. -/
  itself : a = b → ∀ millis, result = .ok millis → millis = Elapsed.millis 0
  /-- Of two events, both have timestamps if a time is told. -/
  timed : a.ordinal ≠ b.ordinal → ∀ millis, result = .ok millis →
    ∃ x, During s h x ∧ (timesOf? x.system a).isSome = true ∧
      (timesOf? x.system b).isSome = true

/-- Nothing is documented to fail only where both events have timestamps. -/
theorem timed_of_documented? {system : System World} (h : documented? system a b = none) :
    (timesOf? system a).isSome = true ∧ (timesOf? system b).isSome = true := by
  have huntimed : untimed? system a b = none := by
    simp only [documented?, Option.or_eq_none_iff] at h
    exact h.2.1
  unfold untimed? at huntimed
  split at huntimed
  next hboth => simpa using hboth
  next => cases huntimed

/-- Every measurement of events ends as the checks say at some moment of it. -/
theorem elapsed_checked (hs : s.Reachable) (hidle : s.Idle t)
    (hallowed : s.Allows (.elapsedTime a b))
    (hsame : a.ordinal = b.ordinal → a = b) :
    s.Concludes t (.elapsedTime a b) fun h result _ => Checked s a b h result := by
  refine concludes hs hidle hallowed ?_
  intro h result s' hreturns
  obtain ⟨⟨x, hx, hkind⟩, hitself⟩ := verdict_of_elapsedTime hs hsame hreturns
  refine ⟨⟨x, hx, hkind⟩, hitself, ?_⟩
  rintro hne millis rfl
  rw [verdict?, if_neg hne] at hkind
  exact ⟨x, hx, timed_of_documented? hkind.symm⟩

/-! ### An event on a queue that captures no timestamps -/

namespace Untimed

def event : Event := ⟨0, .empty⟩

/-- An event that is recorded on a queue that does not profile, and the worker until the event's
marker has run. -/
def recording : List Turn :=
  [.call 0 (.newQueue { profiling := false }), .call 0 (.newEvent .empty),
    .call 0 (.record event 0)] ++ List.replicate 5 (.worker 0)

def recorded : Machine := reached recording (start fun _ => 0)

theorem reachable_recorded : recorded.Reachable := ⟨_, _, run_reached (by decide)⟩

theorem returns_measured :
    Returns 0 (.elapsedTime event event) recorded (recorded.asked 0 (.elapsedTime event event))
      (.ok (Elapsed.millis 0)) (recorded.made 0 (.elapsedTime event event)) :=
  returns_made (by rfl)

end Untimed

open Untimed in
theorem elapsed_checked_untimed :
    recorded.Concludes 0 (.elapsedTime event event) fun h result _ =>
      Checked recorded event event h result :=
  elapsed_checked reachable_recorded (idle_of_idle (by decide)) (allows_of_permits (by decide))
    fun _ => rfl

open Untimed in
/-- Measuring an event without timestamps against itself succeeds, although it is documented to
fail. -/
theorem untimed_from_itself :
    ¬ ∀ s t a b h result s', s.Reachable → Returns t (.elapsedTime a b) s h result s' →
      ∃ x, During s h x ∧ Call.failureKind? (.elapsedTime a b) result =
        documented? x.system a b := by
  intro hdocumented
  obtain ⟨x, hx, hkind⟩ := hdocumented _ _ _ _ _ _ _ reachable_recorded returns_measured
  have huntouched : Untouched event (recorded.asked 0 (.elapsedTime event event)) := by decide
  have hposition : (x.system.binding event).position? = some 0 := by
    rw [hx.binding_eq huntouched]
    decide
  obtain ⟨before, after, -, hrun⟩ := hx
  have hgrows := (sound_of_reachable reachable_recorded).grows hrun
  have hcomplete : recorded.world.status 0 = .complete := by decide
  have hnone : x.system.engine.times? 0 = none :=
    (hgrows.times?_of_complete hcomplete).trans (by decide)
  have hdone := hgrows.status hcomplete
  have hready := unready?_of_complete hposition hposition (by decide) ⟨hdone, hdone⟩
  rw [documented?_of_untimed hposition hposition hready (.inl hnone)] at hkind
  cases hkind

end SyncPoint.Host.Machine
