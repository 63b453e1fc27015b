import SyncPoint.Proofs.Atomicity
import SyncPoint.Proofs.Machine.Closing
import SyncPoint.Proofs.Machine.Measuring
import SyncPoint.Proofs.Machine.Results

/-!
# What a measurement comes to

Whether two events can be measured is decided by checks in a fixed order: whether they are bound and
measure time, whether their commands have run, whether these captured timestamps, and whether a queue
takes the marker that may be needed (`documented?`).  A call finds one of these things at some moment
while it holds both locks, so that its result is what the checks come to at that moment, whatever
others do before and after (`Machine.verdict_of_elapsedTime`).  An event that is measured against
itself is spared the last two checks.
-/

namespace SyncPoint.Host

/-! ## Checks -/

/-- Why two events cannot be measured at all, or not yet. -/
def unready? (system : System World) (start stop : Event) : Option FailureKind :=
  match (system.binding start).position?, (system.binding stop).position? with
  | some p, some r =>
    if start.flags.timingDisabled || stop.flags.timingDisabled then some .invalidHandle
    else if system.engine.status p = .pending ∨ system.engine.status r = .pending then
      some .notReady
    else none
  | _, _ => some .invalidHandle

/-- When the command ran that an event is bound to, if it captured that. -/
def timesOf? (system : System World) (event : Event) : Option Timestamps :=
  (system.binding event).position?.bind system.engine.times?

/-- That one of the events is bound to a command that captured no timestamps. -/
def untimed? (system : System World) (start stop : Event) : Option FailureKind :=
  if (timesOf? system start).isSome && (timesOf? system stop).isSome then none
  else some .invalidHandle

/-- That the events are two at one position, one of them recorded, so that measuring them takes a
marker, and the queue takes none. -/
def unmarkable? (system : System World) (start stop : Event) : Option FailureKind :=
  match (system.binding start).position?, (system.binding stop).position? with
  | some p, some r =>
    if start.ordinal ≠ stop.ordinal ∧ p = r ∧
        ((system.binding start).recorded || (system.binding stop).recorded) ∧
        !system.engine.canAdvance (system.engine.command p).queue then
      some .resourceExhausted
    else none
  | _, _ => none

/-- The kind of failure that measuring two events is documented to end with, if any. -/
def documented? (system : System World) (start stop : Event) : Option FailureKind :=
  (unready? system start stop).or ((untimed? system start stop).or (unmarkable? system start stop))

/-- The kind of failure that measuring two events ends with, if any: for an event with itself, nobody
looks at timestamps. -/
def verdict? (system : System World) (start stop : Event) : Option FailureKind :=
  if start.ordinal = stop.ordinal then unready? system start stop
  else documented? system start stop

variable {α : Type} {t : ThreadId} {inv : System World → Prop} {x y system : System World}
  {start stop : Event} {p r c : CommandRef} {q : QueueRef}

section Checks

theorem unready?_of_unbound
    (h : (x.binding start).position? = none ∨ (x.binding stop).position? = none) :
    unready? x start stop = some .invalidHandle := by
  unfold unready?
  split
  next hp hr =>
    rcases h with h | h
    · cases h.symm.trans hp
    · cases h.symm.trans hr
  next => rfl

theorem documented?_of_unready {kind : FailureKind} (h : unready? x start stop = some kind) :
    documented? x start stop = some kind := by
  simp [documented?, h]

variable (hp : (x.binding start).position? = some p) (hr : (x.binding stop).position? = some r)
include hp hr

theorem unready?_of_disabled
    (h : (start.flags.timingDisabled || stop.flags.timingDisabled) = true) :
    unready? x start stop = some .invalidHandle := by
  simp [unready?, hp, hr, h]

theorem unready?_of_pending
    (henabled : (start.flags.timingDisabled || stop.flags.timingDisabled) = false)
    (h : x.engine.status p = .pending ∨ x.engine.status r = .pending) :
    unready? x start stop = some .notReady := by
  simp [unready?, hp, hr, henabled, h]

theorem unready?_of_complete
    (henabled : (start.flags.timingDisabled || stop.flags.timingDisabled) = false)
    (hdone : x.engine.status p = .complete ∧ x.engine.status r = .complete) :
    unready? x start stop = none := by
  simp [unready?, hp, hr, henabled, hdone]

theorem documented?_of_untimed (hready : unready? x start stop = none)
    (h : x.engine.times? p = none ∨ x.engine.times? r = none) :
    documented? x start stop = some .invalidHandle := by
  have huntimed : untimed? x start stop = some .invalidHandle := by
    rcases h with h | h <;> simp [untimed?, timesOf?, hp, hr, h]
  simp [documented?, hready, huntimed]

theorem documented?_of_timed (hready : unready? x start stop = none)
    (ht : (x.engine.times? p).isSome = true) (hu : (x.engine.times? r).isSome = true) :
    documented? x start stop = unmarkable? x start stop := by
  simp [documented?, hready, untimed?, timesOf?, hp, hr, ht, hu]

theorem unmarkable?_of_apart
    (h : ¬ (p = r ∧ ((x.binding start).recorded = true ∨ (x.binding stop).recorded = true))) :
    unmarkable? x start stop = none := by
  unfold unmarkable?
  rw [hp, hr]
  refine if_neg ?_
  rintro ⟨-, heq, hrecorded, -⟩
  exact h ⟨heq, by simpa using hrecorded⟩

omit hr in
theorem unmarkable?_of_shared (hr : (x.binding stop).position? = some p)
    (hne : start.ordinal ≠ stop.ordinal)
    (hrecorded : (x.binding start).recorded = true ∨ (x.binding stop).recorded = true) :
    unmarkable? x start stop = if x.engine.canAdvance (x.engine.command p).queue then none
      else some .resourceExhausted := by
  cases hadvance : x.engine.canAdvance (x.engine.command p).queue <;>
    simp [unmarkable?, hp, hr, hne, hrecorded, hadvance]

end Checks

/-! ## An event with itself -/

/-- An event is ready to be measured against itself, or is not, as at some moment of the call. -/
theorem ensures_nanosToSelf (hevent : start.ordinal < system.cells.length) :
    Ensures t inv (fun _ result => (∃ x, inv x ∧
      (failureOf? result).map Failure.kind = unready? x start start) ∧
        ∀ nanos, result = .ok nanos → nanos = 0) start.nanosToSelf.run system := by
  refine ensures_locking_value hevent fun locked _ hheld => ?_
  refine ensures_bind_binding fun read hread hasked => ?_
  have hheld := hread.holder hheld
  cases hposition : (read.binding start).position? with
  | none => exact ⟨⟨read, hasked, (unready?_of_unbound (.inl hposition)).symm⟩, nofun⟩
  | some p =>
    have hbound : ∀ x, Meanwhile t read x → (x.binding start).position? = some p := by
      intro x hx
      rw [hx.binding hheld, hposition]
    show Ensures t inv _ (ExceptT.run (ite _ _ _)) read
    cases hdisabled : start.flags.timingDisabled with
    | true =>
      have hverdict := unready?_of_disabled hposition hposition (by simp [hdisabled])
      exact ⟨⟨read, hasked, hverdict.symm⟩, nofun⟩
    | false =>
      have henabled : (start.flags.timingDisabled || start.flags.timingDisabled) = false := by
        simp [hdisabled]
      refine ensures_bind_isReady ?_ ?_
      · intro x found hx hinv _ hdone
        have hverdict := unready?_of_complete (hbound x hx) (hbound x hx) henabled ⟨hdone, hdone⟩
        exact ⟨⟨x, hinv, hverdict.symm⟩, fun nanos hnanos => by cases hnanos; rfl⟩
      · intro x found hx hinv _ hpending
        have hverdict := unready?_of_pending (hbound x hx) (hbound x hx) henabled (.inl hpending)
        exact ⟨⟨x, hinv, hverdict.symm⟩, nofun⟩

theorem ensures_elapsedTime_self (hevent : start.ordinal < system.cells.length) :
    Ensures t inv (fun _ result => (∃ x, inv x ∧
      (failureOf? result).map Failure.kind = unready? x start start) ∧
        ∀ millis, result = .ok millis → millis = Elapsed.millis 0)
      (start.elapsedTime start).run system := by
  refine ensures_bind (fun _ result => (∃ x, inv x ∧
    (failureOf? result).map Failure.kind = unready? x start start) ∧
      ∀ nanos, result = .ok nanos → nanos = 0) ?_ ?_ ?_
  · rw [Event.elapsedNanos, if_pos rfl]
    exact ensures_nanosToSelf hevent
  · rintro _ failure ⟨hfailed, -⟩
    refine ⟨hfailed, ?_⟩
    rintro millis ⟨⟩
  · rintro _ nanos ⟨hmeasured, hzero⟩
    refine ⟨hmeasured, ?_⟩
    rintro millis ⟨⟩
    rw [hzero nanos rfl]

/-! ## Two events -/

/-- The result of a measurement is what the checks come to at some moment. -/
def Agrees (inv : System World → Prop) (start stop : Event) (result : Except Failure α) : Prop :=
  ∃ x, inv x ∧ (failureOf? result).map Failure.kind = documented? x start stop

/-- A queue that has a handle at one moment and takes commands at another can be advanced at one of
them. -/
def Overlaps (inv : System World → Prop) : Prop :=
  ∀ x y q, inv x → inv y → 0 < (x.engine.queue q).handles → (y.engine.queue q).accepting = true →
    x.engine.canAdvance q = true ∨ y.engine.canAdvance q = true

/-- The thread has locked two events that can measure time, one of them at `p` and the other at
`r`. -/
structure Holding (t : ThreadId) (system : System World) (start stop : Event) (p r : CommandRef) :
    Prop where
  start_held : holder system start.ordinal = some t
  stop_held : holder system stop.ordinal = some t
  start_position : (system.binding start).position? = some p
  stop_position : (system.binding stop).position? = some r
  enabled : (start.flags.timingDisabled || stop.flags.timingDisabled) = false

namespace Holding

variable (h : Holding t system start stop p r)
include h

theorem meanwhile (hlater : Meanwhile t system x) : Holding t x start stop p r where
  start_held := hlater.holder h.start_held
  stop_held := hlater.holder h.stop_held
  start_position := by rw [hlater.binding h.start_held, h.start_position]
  stop_position := by rw [hlater.binding h.stop_held, h.stop_position]
  enabled := h.enabled

theorem recorded_iff (hlater : Meanwhile t system x) :
    (x.binding start).recorded = true ∨ (x.binding stop).recorded = true ↔
      (system.binding start).recorded = true ∨ (system.binding stop).recorded = true := by
  rw [hlater.binding h.start_held, hlater.binding h.stop_held]

theorem pending (hstatus : system.engine.status p = .pending ∨ system.engine.status r = .pending) :
    documented? system start stop = some .notReady :=
  documented?_of_unready (unready?_of_pending h.start_position h.stop_position h.enabled hstatus)

theorem ready (hdone : system.engine.status p = .complete ∧ system.engine.status r = .complete) :
    unready? system start stop = none :=
  unready?_of_complete h.start_position h.stop_position h.enabled hdone

theorem untimed (hdone : system.engine.status p = .complete ∧ system.engine.status r = .complete)
    (hnone : system.engine.times? p = none ∨ system.engine.times? r = none) :
    documented? system start stop = some .invalidHandle :=
  documented?_of_untimed h.start_position h.stop_position (h.ready hdone) hnone

theorem timed {times times' : Timestamps} (ht : system.engine.times? p = some times)
    (hu : system.engine.times? r = some times') :
    documented? system start stop = unmarkable? system start stop := by
  have hdone := And.intro (World.complete_of_times? ht) (World.complete_of_times? hu)
  exact documented?_of_timed h.start_position h.stop_position (h.ready hdone) (by rw [ht]; rfl)
    (by rw [hu]; rfl)

theorem apart {times times' : Timestamps} (ht : system.engine.times? p = some times)
    (hu : system.engine.times? r = some times')
    (hapart : ¬ (p = r ∧ ((system.binding start).recorded = true ∨
      (system.binding stop).recorded = true))) : documented? system start stop = none := by
  rw [h.timed ht hu, unmarkable?_of_apart h.start_position h.stop_position hapart]

end Holding

section Pair

theorem ensures_bind_timestampsOf {post : System World → Except Failure α → Prop}
    {next : Timestamps → Operation α}
    (hsome : ∀ asked found times, Meanwhile t system asked → inv asked → Meanwhile t asked found →
      asked.engine.times? c = some times → Ensures t inv post (next times).run found)
    (hnone : ∀ asked found, Meanwhile t system asked → inv asked → Meanwhile t asked found →
      asked.engine.times? c = none → post found (.error .noTimestamps)) :
    Ensures t inv post (timestampsOf c >>= next).run system := by
  intro asked times found h hasked hserves hlater
  have hfound : Meanwhile t asked found := hserves.meanwhile hlater
  have htimes := hserves.timestamps
  cases times with
  | none => exact hnone asked found h hasked hfound htimes.symm
  | some times => exact hsome asked found times h hasked hfound htimes.symm

/-- A marker behind a position fails exactly if its queue cannot be advanced at some moment. -/
theorem FreshMarker.able {w : World} {result : Except Failure UInt64} (hoverlaps : Overlaps inv)
    (hsame : ∀ x, Meanwhile t system x → (x.engine.command p).queue = (w.command p).queue)
    (h : FreshMarker t inv system p w result) : ∃ x, Meanwhile t system x ∧ inv x ∧
      (failureOf? result).map Failure.kind =
        if x.engine.canAdvance (x.engine.command p).queue then none
        else some .resourceExhausted := by
  cases h with
  | @gone x hlater hx hgone =>
    refine ⟨x, hlater, hx, ?_⟩
    rw [hsame x hlater, World.canAdvance, hgone]
    rfl
  | @refused x hlater hx hrefused =>
    refine ⟨x, hlater, hx, ?_⟩
    rw [hsame x hlater, World.canAdvance, hrefused, Bool.and_false]
    rfl
  | @taken x y m u hx hhandles hy haccepting =>
    rcases hoverlaps x y _ hx.2 hy.2 hhandles haccepting with hadvance | hadvance
    · refine ⟨x, hx.1, hx.2, ?_⟩
      rw [hsame x hx.1, hadvance]
      rfl
    · refine ⟨y, hy.1, hy.2, ?_⟩
      rw [hsame y hy.1, hadvance]
      rfl

variable (hinv : ∀ system, inv system → system.engine.Timed) (hoverlaps : Overlaps inv)
  (hne : start.ordinal ≠ stop.ordinal)
include hinv hoverlaps hne

/-- Positions that have run are compared as the remaining checks say. -/
theorem ensures_nanosBetween_agrees (h : Holding t system start stop p r)
    (hdone : system.engine.status p = .complete ∧ system.engine.status r = .complete) :
    Ensures t inv (fun _ result => Agrees inv start stop result)
      (start.nanosBetween (system.binding start).recorded (system.binding stop).recorded p r).run
        system := by
  have hlasting : ∀ x, Meanwhile t system x →
      x.engine.status p = .complete ∧ x.engine.status r = .complete := by
    intro x hx
    exact ⟨hx.grows.status hdone.1, hx.grows.status hdone.2⟩
  refine ensures_bind_timestampsOf ?_ ?_
  case refine_2 =>
    intro asked found hasked hx _ hnone
    exact ⟨asked, hx, ((h.meanwhile hasked).untimed (hlasting asked hasked) (.inl hnone)).symm⟩
  intro asked found times hasked hx hfound ht
  have hread := hasked.trans hfound
  have ht' := hfound.grows.times? ht
  -- where no marker is needed, only timestamps can be missing
  have hsecond : ∀ reading : Timestamps → UInt64, ¬ (p = r ∧
      ((system.binding start).recorded = true ∨ (system.binding stop).recorded = true)) →
      Ensures t inv (fun _ result => Agrees inv start stop result)
        (do return Elapsed.nanosBetween (reading times) (← timestampsOf r).stop :
          Operation Int).run found := by
    intro reading hapart
    refine ensures_bind_timestampsOf ?_ ?_
    · intro asked' found' times' hasked' hx' _ hu
      have hlater := hread.trans hasked'
      refine ⟨asked', hx', ((h.meanwhile hlater).apart (hasked'.grows.times? ht') hu ?_).symm⟩
      rw [h.recorded_iff hlater]
      exact hapart
    · intro asked' found' hasked' hx' _ hnone
      have hlater := hread.trans hasked'
      exact ⟨asked', hx',
        ((h.meanwhile hlater).untimed (hlasting asked' hlater) (.inr hnone)).symm⟩
  split
  next hends => exact hsecond Timestamps.stop fun hshared => hends.1 hshared.1
  next =>
    split
    next hfresh =>
      obtain ⟨rfl, hrecorded⟩ := hfresh
      have hlt := World.lt_of_status_eq_complete hdone.1
      refine ensures_bind (fun _ result => Agrees inv start stop result) ?_ ?_ ?_
      · refine (ensures_freshMarkerEnd hinv start ht').imp _ ?_
        rintro system' result ⟨hlater, hmarker⟩
        obtain ⟨x, hx', hinv', hkind⟩ := hmarker.able hoverlaps fun x hx' => by
          have hlt' := Nat.lt_of_lt_of_le hlt hread.grows.commands_le
          rw [hx'.grows.queue_command hlt', hlater.grows.queue_command hlt']
        have hlater' := hread.trans hx'
        have hheld := h.meanwhile hlater'
        have htimes := hx'.grows.times? ht'
        refine ⟨x, hinv', ?_⟩
        rw [hkind, hheld.timed htimes htimes, unmarkable?_of_shared hheld.start_position
          hheld.stop_position hne ((h.recorded_iff hlater').2 hrecorded)]
      · exact fun _ failure hfailed => hfailed
      · exact fun _ nanos hmeasured => hmeasured
    next hfresh => exact hsecond Timestamps.start hfresh

theorem ensures_nanosToOther_agrees (hstart : start.ordinal < system.cells.length)
    (hstop : stop.ordinal < system.cells.length) :
    Ensures t inv (fun _ result => Agrees inv start stop result)
      (Event.nanosToOther start stop).run system := by
  refine ensures_guardingBoth_value hstart hstop fun locked _ hheld hheld' => ?_
  refine ensures_bind_binding fun read₁ hread₁ _ => ?_
  refine ensures_bind_binding fun read₂ hread₂ hasked => ?_
  have hheld₁ := hread₁.holder hheld
  have hheld₂ := hread₂.holder hheld₁
  have hheld₂' := (hread₁.trans hread₂).holder hheld'
  -- nobody has bound the first event since
  rw [← hread₂.binding hheld₁]
  split
  next p r hp hr =>
    split
    next hdisabled =>
      have hverdict := unready?_of_disabled hp hr hdisabled
      exact ⟨read₂, hasked, (documented?_of_unready hverdict).symm⟩
    next henabled =>
      have h : Holding t read₂ start stop p r :=
        ⟨hheld₂, hheld₂', hp, hr, Bool.eq_false_iff.2 henabled⟩
      refine ensures_bind_isReady ?_ ?_
      case refine_2 =>
        intro x found hx hinv _ hstatus
        exact ⟨x, hinv, ((h.meanwhile hx).pending (.inl hstatus)).symm⟩
      intro x₁ found₁ hx₁ _ hfound₁ hdone₁
      have hread := hx₁.trans hfound₁
      refine ensures_bind_isReady ?_ ?_
      case refine_2 =>
        intro x found hx hinv _ hstatus
        exact ⟨x, hinv, ((h.meanwhile (hread.trans hx)).pending (.inr hstatus)).symm⟩
      intro x₂ found₂ hx₂ _ hfound₂ hdone₂
      have hlater := hread.trans (hx₂.trans hfound₂)
      have hdone := (hfound₁.trans (hx₂.trans hfound₂)).grows.status hdone₁
      rw [← hlater.binding hheld₂, ← hlater.binding hheld₂']
      exact ensures_nanosBetween_agrees hinv hoverlaps hne (h.meanwhile hlater)
        ⟨hdone, hfound₂.grows.status hdone₂⟩
  next hunbound =>
    have hnone : (read₂.binding start).position? = none ∨
        (read₂.binding stop).position? = none := by
      cases hp : (read₂.binding start).position? with
      | none => exact .inl rfl
      | some p =>
        cases hr : (read₂.binding stop).position? with
        | none => exact .inr rfl
        | some r => exact absurd hr (hunbound p r hp)
    have hverdict := unready?_of_unbound hnone
    exact ⟨read₂, hasked, (documented?_of_unready hverdict).symm⟩

theorem ensures_elapsedTime_agrees (hstart : start.ordinal < system.cells.length)
    (hstop : stop.ordinal < system.cells.length) :
    Ensures t inv (fun _ result => Agrees inv start stop result)
      (start.elapsedTime stop).run system := by
  refine ensures_bind (fun _ result => Agrees inv start stop result) ?_ ?_ ?_
  · rw [Event.elapsedNanos, if_neg hne]
    exact ensures_nanosToOther_agrees hinv hoverlaps hne hstart hstop
  · exact fun _ failure hfailed => hfailed
  · exact fun _ nanos hmeasured => hmeasured

end Pair

/-! ## Calls that returned -/

namespace Machine

variable {s s' : Machine} {h : History}

theorem overlaps_during (hs : s.Reachable) :
    Overlaps fun system => ∃ x, During s h x ∧ x.system = system := by
  rintro _ _ q ⟨x, hx, rfl⟩ ⟨y, hy, rfl⟩ hhandles haccepting
  have hhandles : 0 < (x.world.queue q).handles := hhandles
  have haccepting : (y.world.queue q).accepting = true := haccepting
  -- what is refused or gone at the earlier moment is so at the later one, too
  rcases hx.total hy with ⟨h', hrun⟩ | ⟨h', hrun⟩
  · left
    have hkept : (x.world.queue q).accepting = true := by
      by_contra hnot
      have hrefused := hrun.not_accepting (sound_of_reachable (hx.reachable hs))
        (lt_of_handles hhandles) (Bool.eq_false_iff.2 hnot)
      rw [haccepting] at hrefused
      cases hrefused
    show x.world.canAdvance q = true
    simp [World.canAdvance, hhandles, hkept]
  · right
    have hkept : 0 < (y.world.queue q).handles := by
      by_contra hnot
      have hgone := hrun.gone (sound_of_reachable (hy.reachable hs))
        (World.lt_of_accepting haccepting) (Nat.eq_zero_of_not_pos hnot)
      omega
    show y.world.canAdvance q = true
    simp [World.canAdvance, hkept, haccepting]

/-- A measurement ends as the checks say at some moment of the call, and without a failure it tells of
an event and itself that there is no time between. -/
theorem verdict_of_elapsedTime (hs : s.Reachable) {result : Except Failure Single}
    (hsame : start.ordinal = stop.ordinal → start = stop)
    (hreturns : Returns t (.elapsedTime start stop) s h result s') :
    (∃ x, During s h x ∧ Call.failureKind? (.elapsedTime start stop) result =
      verdict? x.system start stop) ∧
        (start = stop → ∀ millis, result = .ok millis → millis = Elapsed.millis 0) := by
  have hsound := sound_of_reachable hs
  have hallowed := hreturns.allows.2
  have hstart := hallowed.events start (by simp [Call.events])
  have hstop := hallowed.events stop (by simp [Call.events])
  by_cases hordinal : start.ordinal = stop.ordinal
  · obtain rfl := hsame hordinal
    obtain ⟨⟨_, ⟨x, hx, rfl⟩, hkind⟩, hzero⟩ :=
      hreturns.ensures_during hsound (ensures_elapsedTime_self hstart)
    refine ⟨⟨x, hx, hkind.trans ?_⟩, fun _ => hzero⟩
    rw [verdict?, if_pos rfl]
  · have htimed : ∀ system, (∃ x, During s h x ∧ x.system = system) → system.engine.Timed := by
      rintro _ ⟨x, hx, rfl⟩
      exact timed_of_reachable (hx.reachable hs)
    obtain ⟨_, ⟨x, hx, rfl⟩, hkind⟩ := hreturns.ensures_during hsound
      (ensures_elapsedTime_agrees htimed (overlaps_during hs) hordinal hstart hstop)
    refine ⟨⟨x, hx, hkind.trans ?_⟩, fun heq => absurd (congrArg Event.ordinal heq) hordinal⟩
    rw [verdict?, if_neg hordinal]

end Machine

end SyncPoint.Host
