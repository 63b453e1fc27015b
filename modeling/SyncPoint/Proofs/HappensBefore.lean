import SyncPoint.Proofs.ElapsedOrder

/-!
# Timestamps across queues

Where all queues run by one clock whose readings never decrease, timestamps tell what happened before
what: a timed command had stopped by the time at which one that depends on it started, through however
many other queues and untimed commands the dependence leads (`Chronological.stamped`).  So an event
that is recorded on a queue after the queue was made to wait for another queue's event is never
measured to be earlier than that (`Chronological.waited`).

What is recorded on a queue requires what the queue was made to wait for (`RecordedBehind.requires`);
the rest is the order of the readings that a measurement compares (`World.Measures.le_of_requires`).
-/

namespace SyncPoint

/-! ## The sign of a measurement -/

namespace Single

theorem negative_ofRatio (num den : Nat) : (ofRatio false num den).negative = false := by
  simp only [ofRatio]
  split
  · rfl
  · split <;> rfl

end Single

namespace Elapsed

theorem negative_millis {nanos : Int} (h : 0 ≤ nanos) : (millis nanos).negative = false := by
  have hsign : (Single.ofInt nanos).negative = false := by
    rw [Single.ofInt, decide_eq_false (Int.not_lt.2 h)]
    exact Single.negative_ofRatio _ _
  rw [millis, Single.divNat, hsign]
  exact Single.negative_ofRatio _ _

end Elapsed

namespace Host

namespace World

variable {w : World} {k : ClockRef} {p r : CommandRef}

/-- What is measured from a command to one that requires it is not negative. -/
theorem Measures.le_of_requires {first second : Bool} {start stop : UInt64} (h : w.Timely k)
    (hmeasures : w.Measures p r first second start stop) (hp : w.clockOf p = k)
    (hr : w.clockOf r = k) (hrequires : w.Requires r p) (hne : p ≠ r) : start ≤ stop := by
  have hbefore : ∀ t u, w.times? p = some t → w.times? r = some u → t.stop ≤ u.stop := by
    intro t u ht hu
    calc t.stop ≤ u.start := h.stop_le_start hu hr hrequires hne hp ht
      _ ≤ u.stop := h.start_le_stop hu hr
  cases hmeasures with
  | @ends t u _ _ _ ht hu => exact hbefore t u ht hu
  | fresh heq => exact absurd heq hne
  | @span t u _ _ ht hu =>
    calc t.start ≤ t.stop := h.start_le_stop ht hp
      _ ≤ u.stop := hbefore t u ht hu

end World

namespace Machine

/-- Queue `q` was made to wait for event `e`, which was bound to command `c` of another queue, and
afterwards event `f` was recorded on `q` at `p`. -/
inductive RecordedBehind (q : QueueRef) (e f : Event) (c p : CommandRef) : Machine → Prop
  | intro {s₀ s₁ s₂ s₃ s : Machine} {t u : ThreadId} {h₁ h₂ h₃ h₄ : History}
      (hreachable : s₀.Reachable) (hwait : Returns t (.streamWait e q) s₀ h₁ (.ok ()) s₁)
      (hbound : (s₁.system.binding e).position? = some c)
      (hother : (s₁.world.command c).queue ≠ q) (hrun : Run s₁ h₂ s₂)
      (hrecord : Returns u (.record f q) s₂ h₃ (.ok ()) s₃)
      (hrecorded : (s₃.system.binding f).position? = some p) (hlater : Run s₃ h₄ s) :
      RecordedBehind q e f c p s

/-- Timestamps tell what happened before what. -/
structure Chronological (s : Machine) : Prop where
  /-- A timed command that has run started when whatever it depends on, directly or not, had stopped,
  as far as that is timed. -/
  stamped : ∀ c d, Relation.TransGen s.world.DependsOn c d → s.world.status c = .complete →
    (s.world.command c).timed = true → (s.world.command d).timed = true →
      ∃ t u, s.world.times? d = some t ∧ s.world.times? c = some u ∧ t.stop ≤ u.start
  /-- A measurement that has just succeeded is not negative if its second event was recorded on a
  queue that had been made to wait for its first one, and both were where they had been. -/
  waited : ∀ q e f c p x t history millis, RecordedBehind q e f c p x →
    Returns t (.elapsedTime e f) x history (.ok millis) s →
      (∀ y, During x history y → (y.system.binding e).position? = some c ∧
        (y.system.binding f).position? = some p) →
          ∃ nanos, millis = Elapsed.millis nanos ∧ 0 ≤ nanos ∧ millis.negative = false

variable {s : Machine} {q : QueueRef} {e f : Event} {c p : CommandRef} {k : ClockRef}

namespace RecordedBehind

theorem reachable (h : RecordedBehind q e f c p s) : s.Reachable := by
  obtain ⟨hreachable, hwait, -, -, hrun, hrecord, -, hlater⟩ := h
  exact (((hreachable.run hwait.run).run hrun).run hrecord.run).run hlater

/-- What is recorded behind a wait requires what was waited for, and is something else. -/
theorem requires (h : RecordedBehind q e f c p s) :
    p < s.world.commands.length ∧ s.world.Requires p c ∧ c ≠ p := by
  obtain ⟨hreachable, hwait, hbound, hother, hrun, hrecord, hrecorded, hlater⟩ := h
  have hsound₀ := sound_of_reachable hreachable
  have hsound₁ := hsound₀.of_run hwait.run
  have hsound₂ := hsound₁.of_run hrun
  have hsound₃ := hsound₂.of_run hrecord.run
  -- the queue covers the command from the wait on, and recording captures what covers it
  obtain ⟨m, hm, hmq, hrequires⟩ :=
    (covers_of_streamWait hsound₀ hwait hbound).grows hsound₁.world (hsound₁.grows hrun)
  obtain ⟨p', hposition, hcaptures⟩ := captures_of_record hsound₂ hrecord
  cases hrecorded.symm.trans hposition
  have hrecording := hsound₂.grows hrecord.run
  have hrest := hsound₃.grows hlater
  have hpm := hcaptures.requires hm ((hrecording.queue_command hm).trans hmq)
  have hpc := hpm.trans (hsound₂.world.requires_grows hrecording hm hrequires)
  refine ⟨Nat.lt_of_lt_of_le hcaptures.1 hrest.commands_le,
    hsound₃.world.requires_grows hrest hcaptures.1 hpc, ?_⟩
  rintro rfl
  have hc := (hsound₁.filed.bound e _ hbound)
  have hqueue := ((hsound₁.grows hrun).trans hrecording).queue_command hc
  exact hother (hqueue.symm.trans hcaptures.2.1)

end RecordedBehind

/-- With one clock for all queues, whose readings never decrease, timestamps tell what happened before
what. -/
theorem chronological (hs : s.Reachable)
    (hclock : ∀ q, q < s.world.queues.length → (s.world.queue q).clock = k)
    (hsteady : s.world.Steady k) : s.Chronological := by
  have hsound := sound_of_reachable hs
  have htimed := timed_of_reachable hs
  have htimely := timely_of_reachable hs hsteady
  have hshared : ∀ c, c < s.world.commands.length → s.world.clockOf c = k :=
    fun c hc => hclock _ (hsound.world.owner c hc)
  refine ⟨?_, ?_⟩
  · intro c d hbefore hcomplete hc hd
    have hrequires := hbefore.to_reflTransGen
    have hdone := hsound.world.complete_of_requires hcomplete hrequires
    have hlt : d < c := by
      obtain ⟨e, hce, hed⟩ := Relation.TransGen.head'_iff.1 hbefore
      exact Nat.lt_of_le_of_lt (hsound.world.le_of_requires hed) (hsound.world.lt_of_dependsOn hce)
    obtain ⟨t, ht⟩ := Option.isSome_iff_exists.1 ((htimed.isSome_times? hdone).trans hd)
    obtain ⟨u, hu⟩ := Option.isSome_iff_exists.1 ((htimed.isSome_times? hcomplete).trans hc)
    refine ⟨t, u, ht, hu, ?_⟩
    exact htimely.stop_le_start hu (hshared c (World.lt_of_status_eq_complete hcomplete)) hrequires
      (Nat.ne_of_lt hlt) (hshared d (World.lt_of_status_eq_complete hdone)) ht
  · intro q e f c p x t history millis hbehind hreturns hkept
    obtain ⟨hp, hrequires, hne⟩ := hbehind.requires
    have hx := sound_of_reachable hbehind.reachable
    have hgrows := hx.grows hreturns.run
    -- events at different commands are different events
    have hevents : e.ordinal ≠ f.ordinal := by
      intro hsame
      obtain ⟨he, hf⟩ := hkept x ⟨[], history, rfl, .refl⟩
      rw [System.binding, System.cell, hsame] at he
      exact hne (Option.some.inj (he.symm.trans hf))
    obtain ⟨y, nanos, hy, houtcome, hresult⟩ :=
      outcome_of_elapsedTime hbehind.reachable hevents hreturns
    obtain ⟨he, hf⟩ := hkept y hy
    cases houtcome with
    | unbound | disabled | pending => cases hresult
    | @compared c' p' _ hc' hp' _ hdone hcompared =>
      cases he.symm.trans hc'
      cases hf.symm.trans hp'
      cases hcompared with
      | untimed | gone | refused => cases hresult
      | @measured start stop hmeasures =>
        cases hresult
        have hle : start ≤ stop := hmeasures.le_of_requires htimely
          (hshared c (World.lt_of_status_eq_complete hdone.1))
          (hshared p (World.lt_of_status_eq_complete hdone.2))
          (hx.world.requires_grows hgrows hp hrequires) hne
        have hnonneg := Elapsed.nanosBetween_nonneg hle
        exact ⟨_, rfl, hnonneg, Elapsed.negative_millis hnonneg⟩

/-! ### An event recorded behind work of another queue -/

namespace Queued

def first : Event := ⟨0, .empty⟩

def second : Event := ⟨1, .empty⟩

/-- Two queues run by the process's clock, and an event is recorded behind work on the first. -/
def recorded : Machine :=
  reached [.call 0 (.newQueue {}), .call 0 (.newQueue {}), .call 0 (.newEvent .empty),
    .call 0 (.newEvent .empty), .call 0 (.enqueueWork 0 [.push 1]), .call 0 (.record first 0)]
    (start (Clock.stepping 1))

def waited : Machine := recorded.made 0 (.streamWait first 1)

/-- Work on the second queue, for which the other event is recorded. -/
def pushed : Machine := reached [.call 0 (.enqueueWork 1 [.push 2])] waited

def behind : Machine := pushed.made 0 (.record second 1)

/-- The workers have done everything. -/
def worked : Machine :=
  reached (List.replicate 6 (.worker 0) ++ List.replicate 12 (.worker 1)) behind

def measured : Machine := worked.made 0 (.elapsedTime first second)

end Queued

open Queued in
theorem chronological_queued :
    (∃ t u, measured.world.times? 0 = some t ∧ measured.world.times? 2 = some u ∧
      t.stop ≤ u.start) ∧
      ∃ nanos, Returns 0 (.elapsedTime first second) worked
        (worked.asked 0 (.elapsedTime first second)) (.ok (Elapsed.millis nanos)) measured ∧
          0 ≤ nanos := by
  have hrecorded : recorded.Reachable := ⟨_, _, run_reached (by decide)⟩
  have hwait : Returns 0 (.streamWait first 1) recorded _ (.ok ()) waited := returns_made (by rfl)
  have hpushed : Run waited _ pushed := run_reached (by decide)
  have hrecord : Returns 0 (.record second 1) pushed _ (.ok ()) behind := returns_made (by rfl)
  have hworked : Run behind _ worked := run_reached (by decide)
  have hmeasured : Returns 0 (.elapsedTime first second) worked
      (worked.asked 0 (.elapsedTime first second)) (.ok (Elapsed.millis 4)) measured :=
    returns_made (by rfl)
  have hbehind : RecordedBehind 1 first second 0 2 worked :=
    .intro hrecorded hwait rfl (by decide) hpushed hrecord rfl hworked
  have hsteady : measured.world.Steady processClock := by
    intro clock hclock i j _ hij _
    cases hclock
    exact Clock.stepping_mono 1 hij
  have hchronological : measured.Chronological :=
    chronological (hbehind.reachable.run hmeasured.run) (by decide) hsteady
  refine ⟨hchronological.stamped 2 0 ?_ rfl rfl rfl, ?_⟩
  · exact .tail (.single (.inr (by decide))) (.inl (by decide) : measured.world.DependsOn 1 0)
  · -- nobody binds the events during the call
    have hkept : ∀ y, During worked (worked.asked 0 (.elapsedTime first second)) y →
        (y.system.binding first).position? = some 0 ∧
          (y.system.binding second).position? = some 2 := by
      intro y hy
      have hfirst : y.system.binding first = worked.system.binding first :=
        hy.binding_eq (by decide)
      have hsecond : y.system.binding second = worked.system.binding second :=
        hy.binding_eq (by decide)
      rw [hfirst, hsecond]
      exact ⟨rfl, rfl⟩
    obtain ⟨nanos, hmillis, hnonneg, -⟩ :=
      hchronological.waited 1 first second 0 2 worked 0 _ _ hbehind hmeasured hkept
    exact ⟨nanos, hmillis ▸ hmeasured, hnonneg⟩

end Machine

end Host

end SyncPoint
