import SyncPoint.Proofs.Conversion
import SyncPoint.Proofs.Machine.Failing
import SyncPoint.Proofs.RecordedElapsed

/-!
# Measuring the other way, and on from there

A measurement treats its two events differently: it looks at the first one's position and timestamps
before it looks at the second one's, and compares different readings from case to case.  Still, two
events fail to be measured in the same ways whichever of them comes first
(`Machine.Fails.reversed`), and where both were recorded at different positions, the difference that
is converted changes its sign with the direction and adds up along a chain of events.  The
conversion itself keeps the former (`Elapsed.millis_neg`) but not the latter, since it rounds.
`Machine.elapsed_reversible` is all of this, of every state that a machine gets to.
-/

namespace SyncPoint

namespace Host.Machine

variable {s s' x : Machine} {t u : ThreadId} {a b c event : Event} {p r v : CommandRef}
  {workers : QueueRef → Prop} {kind : FailureKind} {h : History}

/-! ## Failures -/

/-- A measurement that thread `t` begins in this state can fail in this way, if no other thread
makes a step meanwhile and of the workers only these do. -/
def Fails (s : Machine) (workers : QueueRef → Prop) (t : ThreadId) (a b : Event)
    (kind : FailureKind) : Prop :=
  ∃ h result s', Returns t (.elapsedTime a b) s h result s' ∧
    Call.failureKind? (.elapsedTime a b) result = some kind ∧
    ∀ l ∈ h, l.thread? = some t ∨ ∃ q place, l = .worker q place ∧ workers q

/-- What workers did before a measurement found what hinders it, they can do wherever the queues are
the same, and then hinder it in the same way. -/
structure Replay (s : Machine) (workers : QueueRef → Prop) (a b : Event) (h : History) (w : World)
    (failure : Failure) : Prop where
  run : ∀ x : Machine, x.world = s.world → Run x h (x.withWorld w)
  workers : ∀ l ∈ h, ∃ q place, l = .worker q place ∧ workers q
  hindered : Hindered (s.withWorld w).system a b failure

theorem Fails.replay (hs : s.Reachable) (hne : a.ordinal ≠ b.ordinal)
    (hfails : s.Fails workers t a b kind) :
    ∃ h w failure, Replay s workers a b h w failure ∧ failure.kind = kind := by
  obtain ⟨h, result, s', hreturns, hkind, halone⟩ := hfails
  have hsame : a.ordinal = b.ordinal → a = b := fun heq => absurd heq hne
  obtain ⟨⟨x, ⟨before, after, rfl, hbefore⟩, hverdict⟩, -⟩ :=
    verdict_of_elapsedTime hs hsame hreturns
  rw [hkind, verdict?, if_neg hne] at hverdict
  obtain ⟨failure, hhindered, hfailure⟩ := hindered_of_documented? hne hverdict.symm
  obtain ⟨reported, hreported, -⟩ := Option.map_eq_some_iff.1 hkind
  have hown := (failed_undisturbed hs hreturns hreported).own
  have hmine : ∀ l ∈ before ++ after, l.thread? ≠ none → l.thread? = some t := by
    intro l hl hthread
    rcases halone l hl with hmine | ⟨q, place, rfl, -⟩
    · exact hmine
    · exact absurd rfl hthread
  have hsplit : ∀ {first l last}, before = first ++ l :: last →
      before ++ after = first ++ l :: (last ++ after) := by
    rintro first l last rfl
    simp
  have hkept : ∀ first l last y z, before = first ++ l :: last → Run s first y → Step y l z →
      l.thread? ≠ none → z.world = y.world := by
    intro first l last y z hbefore' hfirst hstep hthread
    have hl := hmine l (by simp [hbefore']) hthread
    obtain ⟨rest, hrest, -, hperforms⟩ := hreturns
    rw [hsplit hbefore'] at hrest
    cases first with
    | nil =>
      cases hrest
      cases hstep
      rfl
    | cons m first =>
      cases hrest
      obtain ⟨request, rfl⟩ := hperforms.ask_of_own (by simp) hl
      exact hstep.world_of_undisturbed (hown _ _ _ y z (hsplit hbefore') hfirst hstep hl)
  have hundisturbed : Undisturbed s.system x.system := by
    refine hbefore.undisturbed fun first l last y z hbefore' hfirst hstep => ?_
    cases hthread : l.thread? with
    | none => exact hstep.undisturbed_of_worker hthread ((sound_of_reachable hs).of_run hfirst)
    | some v =>
      have hl := hmine l (by simp [hbefore']) (by simp [hthread])
      exact hown _ _ _ y z (hsplit hbefore') hfirst hstep hl
  refine ⟨_, x.world, failure, ⟨fun y hy => hbefore.workers hy hkept, ?_, ?_⟩, hfailure⟩
  · intro l hl
    obtain ⟨hmem, hnone⟩ := List.mem_filter.1 hl
    rcases halone l (List.mem_append_left _ hmem) with hmine | hworker
    · rw [hmine] at hnone
      cases hnone
    · exact hworker
  · exact hhindered.congr rfl fun event => (hundisturbed.binding event).symm

/-- A measurement that something hinders after some steps of workers fails. -/
theorem Replay.fails {w : World} {failure : Failure} (hreplay : Replay s workers a b h w failure)
    (hne : a.ordinal ≠ b.ordinal) (hidle : s.Idle t) (hallowed : s.Allows (.elapsedTime a b))
    (ha : Host.holder s.system a.ordinal = none) (hb : Host.holder s.system b.ordinal = none) :
    s.Fails workers t a b failure.kind := by
  have hallowed' : (s.withWorld w).Allows (.elapsedTime a b) := by
    have hevents := hallowed.events
    exact allows_elapsedTime (hevents a (by simp [Call.events])) (hevents b (by simp [Call.events]))
  obtain ⟨system', hrun⟩ := run_of_hindered (t := t) hreplay.hindered hne ha hb
  obtain ⟨h', s', ⟨rest, rfl, -, hperforms⟩, hmine⟩ :=
    returns_of_run (s := s.withWorld w) hidle hallowed' hrun
  have hworkers : ∀ l ∈ h, l.thread? = none := by
    intro l hl
    obtain ⟨q, place, rfl, -⟩ := hreplay.workers l hl
    rfl
  have hbusy : (s.enter t (.elapsedTime a b)).Busy t (.elapsedTime a b) := by
    refine ⟨_, tasks_withTask_self .., rfl, ?_⟩
    show ∃ request next, (a.elapsedTime b).run = .ask request next
    unfold Event.elapsedTime Event.elapsedNanos Event.nanosToOther Event.guardingBoth
    rw [if_neg hne]
    split
    · exact ⟨_, _, rfl⟩
    · exact ⟨_, _, rfl⟩
  have hperforms' := hperforms.after_workers (hreplay.run (s.enter t (.elapsedTime a b)) rfl)
    hworkers hbusy
  refine ⟨_, _, _, ⟨_, rfl, .enter hidle hallowed, hperforms'⟩, rfl, ?_⟩
  intro l hl
  rcases List.mem_cons.1 hl with rfl | hl
  · exact .inl rfl
  · rcases List.mem_append.1 hl with hl | hl
    · exact .inr (hreplay.workers l hl)
    · exact .inl (hmine l (List.mem_cons_of_mem _ hl))

/-- What can fail one way can fail the other way. -/
theorem Fails.reversed (hs : s.Reachable) (hne : a.ordinal ≠ b.ordinal) (hidle : s.Idle u)
    (hfails : s.Fails workers t a b kind) : s.Fails workers u b a kind := by
  obtain ⟨h, w, failure, hreplay, rfl⟩ := hfails.replay hs hne
  obtain ⟨h', result, s', hreturns, -, halone⟩ := hfails
  have hevents := hreturns.allows.2.events
  have hallowed : s.Allows (.elapsedTime b a) :=
    allows_elapsedTime (hevents b (by simp [Call.events])) (hevents a (by simp [Call.events]))
  obtain ⟨ha, hb⟩ := free_of_returns hs hne hreturns fun l hl v hv => by
    rcases halone l hl with hmine | ⟨q, place, rfl, -⟩
    · exact Option.some.inj (hv.symm.trans hmine)
    · cases hv
  have hreversed : Replay s workers b a h w failure :=
    ⟨hreplay.run, hreplay.workers, hreplay.hindered.symm⟩
  exact hreversed.fails hne.symm hidle hallowed hb ha

/-! ## Differences -/

/-- An event was recorded at a command that has run and captured timestamps. -/
structure RecordedAt (s : Machine) (event : Event) (p : CommandRef) : Prop where
  bound : s.system.binding event = .bound p true
  complete : s.world.status p = .complete
  timed : (s.world.times? p).isSome = true

/-- Two events were recorded at different commands that have run and captured timestamps, whatever
queues these are on. -/
def Apart (s : Machine) (a b : Event) : Prop :=
  ∃ p r, s.RecordedAt a p ∧ s.RecordedAt b r ∧ p ≠ r

/-- When the command ended that an event is bound to. -/
def endOf (s : Machine) (event : Event) : UInt64 :=
  ((timesOf? s.system event).map Timestamps.stop).getD 0

/-- The time from the end of one event's command to the end of the other's. -/
def difference (s : Machine) (a b : Event) : Int :=
  Elapsed.nanosBetween (s.endOf a) (s.endOf b)

/-- What a measurement of two events converts, in nanoseconds. -/
structure Converts (s : Machine) (a b : Event) (nanos : Int) : Prop where
  /-- A thread that goes on alone finds this difference, if nobody holds the events. -/
  found : (a.flags.timingDisabled || b.flags.timingDisabled) = false →
    Host.holder s.system a.ordinal = none → Host.holder s.system b.ordinal = none → ∀ t,
      ∃ system', (a.elapsedNanos b).run.run (System.serve stillEngine t) s.system =
        some (.ok nanos, system')
  /-- Whatever others do meanwhile, a measurement that returns tells this difference, if nobody
  binds the events. -/
  measured : (a.flags.timingDisabled || b.flags.timingDisabled) = false →
    s.MeasuredAs a b (Elapsed.millis nanos)

theorem Apart.symm (h : s.Apart a b) : s.Apart b a := by
  obtain ⟨p, r, ha, hb, hne⟩ := h
  exact ⟨r, p, hb, ha, hne.symm⟩

theorem RecordedAt.exist (h : s.RecordedAt event p) : event.ordinal < s.system.cells.length := by
  by_contra hnot
  have hbound := h.bound
  simp [System.binding, System.cell, List.getElem?_eq_none (Nat.not_lt.1 hnot)] at hbound

theorem RecordedAt.endOf (h : s.RecordedAt event p) :
    ∃ times, s.world.times? p = some times ∧ s.endOf event = times.stop := by
  obtain ⟨times, htimes⟩ := Option.isSome_iff_exists.1 h.timed
  have hends : timesOf? s.system event = some times := by
    rw [timesOf?, h.bound]
    exact htimes
  refine ⟨times, htimes, ?_⟩
  rw [Machine.endOf, hends]
  rfl

/-- Two events that were recorded apart are measured from end to end. -/
theorem Apart.converts (hs : s.Reachable) (h : s.Apart a b) :
    s.Converts a b (s.difference a b) := by
  obtain ⟨p, r, ha, hb, hpr⟩ := h
  obtain ⟨times, htimes, haend⟩ := ha.endOf
  obtain ⟨times', htimes', hbend⟩ := hb.endOf
  have hne : a.ordinal ≠ b.ordinal := by
    intro heq
    have hcell : s.system.binding a = s.system.binding b := by
      rw [System.binding, System.binding, System.cell, System.cell, heq]
    rw [ha.bound, hb.bound] at hcell
    cases hcell
    exact hpr rfl
  have hp : (s.system.binding a).position? = some p := by rw [ha.bound]; rfl
  have hr : (s.system.binding b).position? = some r := by rw [hb.bound]; rfl
  have hboth : (if (s.system.binding a).recorded && (s.system.binding b).recorded then times.stop
      else times.start) = times.stop := by
    rw [ha.bound, hb.bound]
    rfl
  rw [difference, haend, hbend]
  refine ⟨fun henabled hafree hbfree t => ?_, fun henabled => ⟨?_, ?_⟩⟩
  · have hrun := run_elapsedNanos (t := t) hne henabled hafree hbfree hpr hp hr htimes htimes'
    rwa [hboth] at hrun
  · intro t h result s' hreturns hauntouched hbuntouched
    have hresult := eq_of_elapsedTime hs hne henabled hp hr hpr htimes htimes' hreturns hauntouched
      hbuntouched
    rwa [hboth] at hresult
  · intro t hidle hafree hbfree
    have hallowed : s.Allows (.elapsedTime a b) := allows_elapsedTime ha.exist hb.exist
    obtain ⟨system', hrun⟩ :=
      run_elapsedTime (t := t) hne henabled hafree hbfree hpr hp hr htimes htimes'
    rw [hboth] at hrun
    exact returns_of_run hidle hallowed hrun

/-! ## Both -/

/-- How measurements that begin in one state relate to each other. -/
structure Reversible (s : Machine) : Prop where
  /-- Whatever workers go on meanwhile, two events can fail to be measured one way exactly as they
  can fail to be measured the other way. -/
  fails : ∀ workers t u a b kind, a.ordinal ≠ b.ordinal → s.Idle t → s.Idle u →
    (s.Fails workers t a b kind ↔ s.Fails workers u b a kind)
  /-- Where other threads go on as well, a measurement ends as at a moment at which the checks come
  to the same both ways. -/
  moment : ∀ t a b h result s', a.ordinal ≠ b.ordinal →
    Returns t (.elapsedTime a b) s h result s' → ∃ x, During s h x ∧
      Call.failureKind? (.elapsedTime a b) result = documented? x.system a b ∧
      Call.failureKind? (.elapsedTime a b) result = documented? x.system b a
  /-- Events that were recorded apart are measured by their difference. -/
  converted : ∀ a b, s.Apart a b → s.Converts a b (s.difference a b)
  /-- The other way, it is the same difference with the other sign. -/
  reversed : ∀ a b, s.Apart a b → s.Converts b a (-s.difference a b) ∧
    Elapsed.millis (-s.difference a b) = (Elapsed.millis (s.difference a b)).neg
  /-- Differences add up. -/
  chained : ∀ a b c, s.Apart a b → s.Apart b c → s.Apart a c →
    s.Converts a c (s.difference a b + s.difference b c)

/-- In every state, two events fail to be measured in the same ways whichever comes first, and the
differences between recorded events change their sign when reversed and add up when chained. -/
theorem elapsed_reversible (hs : s.Reachable) : s.Reversible where
  fails workers t u a b kind hne ht hu := ⟨.reversed hs hne hu, .reversed hs hne.symm ht⟩
  moment t a b h result s' hne hreturns := by
    have hsame : a.ordinal = b.ordinal → a = b := fun heq => absurd heq hne
    obtain ⟨⟨x, hx, hverdict⟩, -⟩ := verdict_of_elapsedTime hs hsame hreturns
    rw [verdict?, if_neg hne] at hverdict
    exact ⟨x, hx, hverdict, hverdict.trans (documented?_comm hne)⟩
  converted a b hapart := hapart.converts hs
  reversed a b hapart := by
    refine ⟨?_, Elapsed.millis_neg _⟩
    rw [difference, ← Elapsed.nanosBetween_swap]
    exact hapart.symm.converts hs
  chained a b c _ _ hapart := by
    rw [difference, difference, Elapsed.nanosBetween_chain]
    exact hapart.converts hs

/-! ### Three events on two queues, and one that was never bound -/

namespace Reversal

def first : Event := ⟨0, .empty⟩

def second : Event := ⟨1, .empty⟩

def third : Event := ⟨2, .empty⟩

def unbound : Event := ⟨3, .empty⟩

/-- Two events are recorded on a queue and one on another that has a clock of its own; the workers
do everything. -/
def turns : List Turn :=
  [.call 0 (.newQueue {}), .call 0 (.newQueue { clock := .own (Clock.stepping 5) }),
    .call 0 (.newEvent .empty), .call 0 (.newEvent .empty), .call 0 (.newEvent .empty),
    .call 0 (.newEvent .empty), .call 0 (.record first 0), .call 0 (.enqueueWork 0 []),
    .call 0 (.record second 0), .call 0 (.record third 1)] ++ List.replicate 10 (.worker 0) ++
    List.replicate 5 (.worker 1)

def worked : Machine := reached turns (start UInt64.ofNat)

end Reversal

open Reversal in
theorem elapsed_reversible_queues :
    worked.Converts first third 8 ∧ worked.Converts third first (-8) ∧
      worked.Converts first third (2 + 6) ∧
      worked.Fails (fun _ => False) 0 first unbound .invalidHandle := by
  have hs : worked.Reachable := ⟨_, _, run_reached (by decide)⟩
  have hfirst : worked.RecordedAt first 0 := ⟨rfl, by decide, by decide⟩
  have hsecond : worked.RecordedAt second 1 := ⟨rfl, by decide, by decide⟩
  have hthird : worked.RecordedAt third 2 := ⟨rfl, by decide, by decide⟩
  have hab : worked.Apart first second := ⟨0, 1, hfirst, hsecond, by decide⟩
  have hbc : worked.Apart second third := ⟨1, 2, hsecond, hthird, by decide⟩
  have hac : worked.Apart first third := ⟨0, 2, hfirst, hthird, by decide⟩
  have hreversible := elapsed_reversible hs
  have hreturns : Returns 0 (.elapsedTime unbound first) worked
      (worked.asked 0 (.elapsedTime unbound first)) (.error .unboundPair)
      (worked.made 0 (.elapsedTime unbound first)) := returns_made (by rfl)
  have hmine : ∀ l ∈ worked.asked 0 (.elapsedTime unbound first), l.thread? = some 0 := by decide
  have hidle : worked.Idle 0 := idle_of_idle (by decide)
  refine ⟨hreversible.converted _ _ hac, (hreversible.reversed _ _ hac).1,
    hreversible.chained _ _ _ hab hbc hac, ?_⟩
  refine (hreversible.fails _ 0 0 _ _ _ (by decide) hidle hidle).1 ?_
  exact ⟨_, _, _, hreturns, rfl, fun l hl => .inl (hmine l hl)⟩

end Host.Machine

end SyncPoint
