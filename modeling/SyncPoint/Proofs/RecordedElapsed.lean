import SyncPoint.Proofs.Machine.Alone
import SyncPoint.Proofs.Measurability

/-!
# What recording leaves of earlier bindings

Recording an event at the position to which it is bound already changes nothing, so an event that
was attached to a command and is then recorded there still does not count as recorded.  That is the
one trace that earlier bindings leave (`Machine.LastRecorded.counts`).  Where two events were recorded
last and are at different commands with timestamps, a measurement compares their ends if both count
as recorded, and otherwise the start of the first with the end of the second
(`Machine.recorded_elapsed`).  `Machine.attached_then_recorded` is the case that makes the difference.
-/

namespace SyncPoint.Host

/-! ## What recording binds an event to -/

section Recording

variable {t : ThreadId} {inv : System World → Prop} {system : System World} {event : Event}
  {q : QueueRef}

/-- The event was bound anew, or was at the chosen position already when `inv` held. -/
def BoundOrFound (inv : System World → Prop) (event : Event) (recorded : Bool) (binding : Binding) :
    Prop :=
  (∃ p, binding = .bound p recorded) ∨ ∃ x, inv x ∧ x.binding event = binding ∧ binding ≠ .unbound

/-- A position that is chosen without a change to any cell is bound, or was bound already. -/
theorem ensures_addMarker_binding {command : Option CommandRef} {recorded : Bool}
    (hposition : ∀ locked, Later system locked → Ensures t inv (fun system' _ =>
      Meanwhile t locked system') (Event.choosePosition q command).run locked)
    (hevent : event.ordinal < system.cells.length) :
    Ensures t inv (fun system' result => result = .ok () →
      BoundOrFound inv event recorded (system'.binding event))
      (event.addMarker q command recorded).run system := by
  refine ensures_locking hevent fun locked hlocked hheld => ?_
  refine Ensures.imp (fun system' result => holder system' event.ordinal = some t ∧
    (result = .ok () → BoundOrFound inv event recorded (system'.binding event))) ?_ ?_
  · refine ensures_bind _ (hposition locked hlocked) ?_ ?_
    · intro system' failure hlater
      exact ⟨hlater.holder hheld, nofun⟩
    intro chosen p hchosen
    refine ensures_bind_binding fun read hread hinv => ?_
    have hheld₁ := (hchosen.trans hread).holder hheld
    refine ensures_bind_engine fun asked reply found h h' _ _ => ?_
    have hfound := h.trans h'
    have hheld₂ := hfound.holder hheld₁
    split
    next hsame =>
      refine ensures_log fun logged hlogged => ?_
      refine ⟨hlogged.holder hheld₂, fun _ => .inr ⟨read, hinv, ?_, ?_⟩⟩
      · rw [hlogged.binding hheld₂, hfound.binding hheld₁]
      · rw [hlogged.binding hheld₂, hfound.binding hheld₁]
        intro hunbound
        rw [hunbound] at hsame
        cases hsame
    next =>
      intro asked₂ _ bound h₂ _ hserves hlater₂
      cases hserves
      refine ensures_log fun logged hlogged => ?_
      have hheld₃ := h₂.holder hheld₂
      have hcell := System.cell_setCell_self (lt_of_holder hheld₃)
        { asked₂.cell event with binding := .bound p recorded }
      have hbound := (congrArg EventCell.holder hcell).trans hheld₃
      refine ⟨hlogged.holder hbound, fun _ => .inl ⟨p, ?_⟩⟩
      rw [hlogged.binding hbound, System.binding, hcell]
  · rintro system' result ⟨hheld', hbound⟩
    refine ⟨hheld', ?_⟩
    intro system'' _ hbinding hok
    rw [hbinding]
    exact hbound hok

theorem ensures_record_binding (hevent : event.ordinal < system.cells.length) :
    Ensures t inv (fun system' result => result = .ok () →
      BoundOrFound inv event true (system'.binding event)) (event.record q).run system := by
  apply ensures_addMarker_binding _ hevent
  intro locked _
  refine (ensures_currentPosition (fun _ _ => True) ?_ ?_ ?_).imp _ fun _ _ hend => hend.1
  · exact fun _ _ _ _ _ => trivial
  · exact fun _ _ _ _ _ _ _ _ => trivial
  · exact fun _ _ _ _ _ => trivial

end Recording

namespace Machine

variable {s s' x y : Machine} {t : ThreadId} {a b event : Event} {q : QueueRef} {c d : CommandRef}
  {h history history' : History}

/-- The event was bound last by a call to record it, made in `x` and with these steps. -/
structure LastRecorded (s : Machine) (event : Event) (x : Machine) (history : History) : Prop where
  reachable : x.Reachable
  last : ∃ q t y h, Returns t (.record event q) x history (.ok ()) y ∧ Run y h s ∧ Untouched event h

/-- At some moment of these steps the event is at `c` and does not count as recorded. -/
def FindsAttached (x : Machine) (history : History) (event : Event) (c : CommandRef) : Prop :=
  ∃ z, During x history z ∧ z.system.binding event = .bound c false

/-- What a measurement of two events comes to. -/
structure MeasuredAs (s : Machine) (a b : Event) (millis : Single) : Prop where
  /-- Whatever others do meanwhile, it returns this, if nobody binds the events. -/
  returned : ∀ t h result s', Returns t (.elapsedTime a b) s h result s' → Untouched a h →
    Untouched b h → result = .ok millis
  /-- It does return, if nobody holds the events and its thread goes on alone. -/
  alone : ∀ t, s.Idle t → holder s.system a.ordinal = none → holder s.system b.ordinal = none →
    ∃ h s', Returns t (.elapsedTime a b) s h (.ok millis) s' ∧ ∀ l ∈ h, l.thread? = some t

theorem LastRecorded.exist (h : s.LastRecorded event x history) :
    event.ordinal < s.system.cells.length := by
  obtain ⟨q, t, y, h', hrecord, hrun, -⟩ := h.last
  have hevent := hrecord.allows.2.events event (by simp [Call.events])
  exact Nat.lt_of_lt_of_le hevent (hrecord.run.trans hrun).cells_le

/-- An event that was recorded counts as recorded, unless recording found it attached to that very
position. -/
theorem LastRecorded.counts (h : s.LastRecorded event x history)
    (hc : (s.system.binding event).position? = some c) :
    s.system.binding event = .bound c true ∨
      s.system.binding event = .bound c false ∧ FindsAttached x history event c := by
  obtain ⟨q, t, y, h', hrecord, hrun, huntouched⟩ := h.last
  have hevent := hrecord.allows.2.events event (by simp [Call.events])
  have hbinding := hrun.binding_eq huntouched
  have hbound := hrecord.ensures_during (sound_of_reachable h.reachable)
    (ensures_record_binding hevent) rfl
  rw [← hbinding] at hbound
  cases hsame : s.system.binding event with
  | unbound =>
    rw [hsame] at hc
    cases hc
  | bound p recorded =>
    rw [hsame] at hc hbound
    cases hc
    cases recorded with
    | true => exact .inl rfl
    | false =>
      rcases hbound with ⟨p, hp⟩ | ⟨_, ⟨z, hz, rfl⟩, hfound, -⟩
      · cases hp
      · exact .inr ⟨rfl, z, hz, hfound⟩

section Measured

variable {times u : Timestamps} (hs : s.Reachable) (hne : a.ordinal ≠ b.ordinal)
  (henabled : (a.flags.timingDisabled || b.flags.timingDisabled) = false)
  (hc : (s.system.binding a).position? = some c) (hd : (s.system.binding b).position? = some d)
  (hcd : c ≠ d) (ht : s.world.times? c = some times) (hu : s.world.times? d = some u)
include hs hne henabled hc hd hcd ht hu

/-- Two events at different commands with timestamps are measured from end to end if both are
recorded, and otherwise from the start of the first to the end of the second. -/
theorem eq_of_elapsedTime {result : Except Failure Single}
    (h : Returns t (.elapsedTime a b) s history result s') (ha : Untouched a history)
    (hb : Untouched b history) :
    result = .ok (Elapsed.millis (Elapsed.nanosBetween
      (if (s.system.binding a).recorded && (s.system.binding b).recorded then times.stop
        else times.start) u.stop)) := by
  have hsound := sound_of_reachable hs
  have hgrows := hsound.grows h.run
  obtain ⟨x, nanos, hx, houtcome, rfl⟩ := outcome_of_elapsedTime hs hne h
  rw [hx.binding_eq ha, hx.binding_eq hb] at houtcome
  have hdone : ∀ system, (∃ y, During s history y ∧ y.system = system) →
      system.engine.status c = .complete ∧ system.engine.status d = .complete := by
    rintro _ ⟨y, ⟨before, after, -, hbefore⟩, rfl⟩
    have hlater := hsound.grows hbefore
    exact ⟨hlater.status (World.complete_of_times? ht), hlater.status (World.complete_of_times? hu)⟩
  obtain ⟨-, hcompared⟩ := houtcome.compared_of_done hc hd henabled hdone
  have ht' := hgrows.times? ht
  have hu' := hgrows.times? hu
  cases hcompared with
  | untimed hwhich hnone =>
    rcases hwhich with rfl | rfl
    · cases ht'.symm.trans hnone
    · cases hu'.symm.trans hnone
  | gone heq | refused heq => exact absurd heq hcd
  | measured hmeasures =>
    cases hmeasures with
    | ends _ hfirst hsecond hfound hfound' =>
      cases ht'.symm.trans hfound
      cases hu'.symm.trans hfound'
      simp [hfirst, hsecond, Except.map]
    | fresh heq => exact absurd heq hcd
    | span hends _ hfound hfound' =>
      cases ht'.symm.trans hfound
      cases hu'.symm.trans hfound'
      have hnot : ((s.system.binding a).recorded && (s.system.binding b).recorded) ≠ true := by
        intro hboth
        exact hends ⟨hcd, by simpa using hboth⟩
      simp [hnot, Except.map]

end Measured

/-- Two events that were recorded last and are at different commands with timestamps are measured
from end to end, unless recording found one of them attached to that very position: such an event
does not count as recorded, and the measure is from the start of the first. -/
theorem recorded_elapsed (hs : s.Reachable) (ha : s.LastRecorded a x history)
    (hb : s.LastRecorded b y history') (hne : a.ordinal ≠ b.ordinal)
    (haenabled : a.flags.timingDisabled = false) (hbenabled : b.flags.timingDisabled = false)
    (hc : (s.system.binding a).position? = some c) (hd : (s.system.binding b).position? = some d)
    (hcd : c ≠ d) {times u : Timestamps} (ht : s.world.times? c = some times)
    (hu : s.world.times? d = some u) :
    ((s.system.binding a).recorded = true ∨ FindsAttached x history a c) ∧
      ((s.system.binding b).recorded = true ∨ FindsAttached y history' b d) ∧
        s.MeasuredAs a b (Elapsed.millis (Elapsed.nanosBetween
          (if (s.system.binding a).recorded && (s.system.binding b).recorded then times.stop
            else times.start) u.stop)) := by
  have hcounts : ∀ {event : Event} {x : Machine} {history : History} {c : CommandRef},
      s.LastRecorded event x history → (s.system.binding event).position? = some c →
        (s.system.binding event).recorded = true ∨ FindsAttached x history event c := by
    intro event x history c hlast hposition
    rcases hlast.counts hposition with hbound | ⟨-, hfound⟩
    · exact .inl (by rw [hbound]; rfl)
    · exact .inr hfound
  have henabled : (a.flags.timingDisabled || b.flags.timingDisabled) = false := by
    simp [haenabled, hbenabled]
  refine ⟨hcounts ha hc, hcounts hb hd, ?_, ?_⟩
  · intro t h result s' hreturns hauntouched hbuntouched
    exact eq_of_elapsedTime hs hne henabled hc hd hcd ht hu hreturns hauntouched hbuntouched
  · intro t hidle hafree hbfree
    have hallowed : s.Allows (.elapsedTime a b) := allows_elapsedTime ha.exist hb.exist
    obtain ⟨system', hrun⟩ := run_elapsedTime (t := t) hne henabled hafree hbfree hcd hc hd ht hu
    exact returns_of_run hidle hallowed hrun

/-! ### Three events on a queue, the first of them attached to its position before -/

namespace Attached

def first : Event := ⟨0, .empty⟩

def second : Event := ⟨1, .empty⟩

def third : Event := ⟨2, .empty⟩

def attached : Machine :=
  reached [.call 0 (.newQueue {}), .call 0 (.newEvent .empty), .call 0 (.newEvent .empty),
    .call 0 (.newEvent .empty), .call 0 (.enqueueWork 0 []), .call 0 (.attachCommand first 0 0)]
    (start UInt64.ofNat)

def one : Machine := attached.made 0 (.record first 0)

def pushed : Machine := reached [.call 0 (.enqueueWork 0 [])] one

def two : Machine := pushed.made 0 (.record second 0)

def pushedAgain : Machine := reached [.call 0 (.enqueueWork 0 [])] two

def three : Machine := pushedAgain.made 0 (.record third 0)

/-- The worker has done everything. -/
def worked : Machine := reached (List.replicate 15 (.worker 0)) three

theorem lastRecorded_worked : worked.Reachable ∧
    worked.LastRecorded first attached (attached.asked 0 (.record first 0)) ∧
    worked.LastRecorded second pushed (pushed.asked 0 (.record second 0)) ∧
    worked.LastRecorded third pushedAgain (pushedAgain.asked 0 (.record third 0)) := by
  have hattached : attached.Reachable := ⟨_, _, run_reached (by decide)⟩
  have hone : Returns 0 (.record first 0) attached _ (.ok ()) one := returns_made (by rfl)
  have hpushed : Run one _ pushed := run_reached (by decide)
  have htwo : Returns 0 (.record second 0) pushed _ (.ok ()) two := returns_made (by rfl)
  have hpushed' : Run two _ pushedAgain := run_reached (by decide)
  have hthree : Returns 0 (.record third 0) pushedAgain _ (.ok ()) three := returns_made (by rfl)
  have hworked : Run three _ worked := run_reached (by decide)
  have hfrom₂ := (hpushed'.trans hthree.run).trans hworked
  have hfrom₁ := (hpushed.trans htwo.run).trans hfrom₂
  have hreached₂ := (hattached.run hone.run).run hpushed
  have hreached₃ := (hreached₂.run htwo.run).run hpushed'
  refine ⟨(hattached.run hone.run).run hfrom₁, ⟨hattached, ?_⟩, ⟨hreached₂, ?_⟩, ⟨hreached₃, ?_⟩⟩
  · exact ⟨_, _, _, _, hone, hfrom₁, by decide⟩
  · exact ⟨_, _, _, _, htwo, hfrom₂, by decide⟩
  · exact ⟨_, _, _, _, hthree, hworked, by decide⟩

end Attached

open Attached in
theorem recorded_elapsed_worked : worked.MeasuredAs second third (Elapsed.millis 2) := by
  obtain ⟨hs, -, hsecond, hthird⟩ := lastRecorded_worked
  have hc : (worked.system.binding second).position? = some 1 := rfl
  have hd : (worked.system.binding third).position? = some 2 := rfl
  have htimes : worked.world.times? 1 = some ⟨3, 4⟩ := rfl
  have htimes' : worked.world.times? 2 = some ⟨5, 6⟩ := rfl
  exact (recorded_elapsed hs hsecond hthird (by decide) rfl rfl hc hd (by decide) htimes
    htimes').2.2

open Attached in
/-- An event that was attached to the position at which it is then recorded does not count as
recorded, and is measured from the start of its command. -/
theorem attached_then_recorded :
    worked.Reachable ∧ worked.LastRecorded first attached (attached.asked 0 (.record first 0)) ∧
      worked.LastRecorded second pushed (pushed.asked 0 (.record second 0)) ∧
      worked.system.binding first = .bound 0 false ∧ worked.system.binding second = .bound 1 true ∧
      worked.world.times? 0 = some ⟨1, 2⟩ ∧ worked.world.times? 1 = some ⟨3, 4⟩ ∧
      Returns 0 (.elapsedTime first second) worked (worked.asked 0 (.elapsedTime first second))
        (.ok (Elapsed.millis (Elapsed.nanosBetween 1 4)))
        (worked.made 0 (.elapsedTime first second)) ∧
      Elapsed.millis (Elapsed.nanosBetween 1 4) ≠ Elapsed.millis (Elapsed.nanosBetween 2 4) := by
  obtain ⟨hs, hfirst, hsecond, -⟩ := lastRecorded_worked
  exact ⟨hs, hfirst, hsecond, rfl, rfl, rfl, rfl, returns_made (by rfl), by decide⟩

end Machine

end SyncPoint.Host
