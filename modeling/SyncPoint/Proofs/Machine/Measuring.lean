import SyncPoint.Proofs.Machine.Bindings
import SyncPoint.Proofs.Machine.Calls
import SyncPoint.Proofs.Machine.Timing

/-!
# What is measured between two events

A measurement reads the bindings of both events while it holds both locks, and compares readings of
the commands found there, or of a marker that it enqueues for that (`World.Measures`).  Where it
fails, the failure tells what it found at some moment of the call (`Outcome`): the reason need not
last, as another thread may drop a queue or bind an event meanwhile.

`ensures_elapsedTime` says this of the program, where an invariant of the states in which requests
are answered tells which moments those can be, and `Machine.outcome_of_elapsedTime` says it of calls
that returned.
-/

namespace SyncPoint.Host

variable {α : Type} {t : ThreadId} {inv : System World → Prop} {system : System World}

/-- The readings that are compared for two positions, given which of the bindings are recorded. -/
inductive World.Measures (w : World) (p r : CommandRef) (first second : Bool) :
    UInt64 → UInt64 → Prop
  /-- Recorded at different positions: from end to end. -/
  | ends {t u : Timestamps} (hne : p ≠ r) (hfirst : first = true) (hsecond : second = true)
      (ht : w.times? p = some t) (hu : w.times? r = some u) : Measures w p r first second t.stop u.stop
  /-- At one position, at least once recorded: to the end of a marker behind it. -/
  | fresh {t u : Timestamps} {m : CommandRef} (heq : p = r)
      (hrecorded : first = true ∨ second = true) (ht : w.times? p = some t) (hm : p < m)
      (hqueue : (w.command m).queue = (w.command p).queue) (hu : w.times? m = some u) :
      Measures w p r first second t.stop u.stop
  /-- Otherwise: from the start of the first to the end of the second. -/
  | span {t u : Timestamps} (hends : ¬ (p ≠ r ∧ first = true ∧ second = true))
      (hfresh : ¬ (p = r ∧ (first = true ∨ second = true))) (ht : w.times? p = some t)
      (hu : w.times? r = some u) : Measures w p r first second t.start u.stop

/-- What comes of a marker that is enqueued behind a position and waited for. -/
inductive FreshMarker (t : ThreadId) (inv : System World → Prop) (system : System World)
    (p : CommandRef) (w : World) : Except Failure UInt64 → Prop
  | gone {x : System World} (hlater : Meanwhile t system x) (hx : inv x)
      (h : (x.engine.queue (w.command p).queue).handles = 0) :
      FreshMarker t inv system p w (.error .positionQueueGone)
  | refused {x : System World} (hlater : Meanwhile t system x) (hx : inv x)
      (h : (x.engine.queue (w.command p).queue).accepting = false) :
      FreshMarker t inv system p w (.error .queueShutDown)
  /-- The queue had a handle at one moment and took commands at another. -/
  | taken {x y : System World} {m : CommandRef} {u : Timestamps} (hx : Meanwhile t system x ∧ inv x)
      (hhandles : 0 < (x.engine.queue (w.command p).queue).handles)
      (hy : Meanwhile t system y ∧ inv y)
      (haccepting : (y.engine.queue (w.command p).queue).accepting = true) (hm : p < m)
      (hqueue : (w.command m).queue = (w.command p).queue) (hu : w.times? m = some u) :
      FreshMarker t inv system p w (.ok u.stop)

/-- How a measurement of two positions that have run ends. -/
inductive Compared (inv : System World → Prop) (w : World) (p r : CommandRef)
    (first second : Bool) : Except Failure Int → Prop
  | untimed {c : CommandRef} (hc : c = p ∨ c = r) (h : w.times? c = none) :
      Compared inv w p r first second (.error .noTimestamps)
  | gone {times : Timestamps} {x : System World} (heq : p = r)
      (hrecorded : first = true ∨ second = true) (ht : w.times? p = some times) (hx : inv x)
      (h : (x.engine.queue (w.command p).queue).handles = 0) :
      Compared inv w p r first second (.error .positionQueueGone)
  | refused {times : Timestamps} {x : System World} (heq : p = r)
      (hrecorded : first = true ∨ second = true) (ht : w.times? p = some times) (hx : inv x)
      (h : (x.engine.queue (w.command p).queue).accepting = false) :
      Compared inv w p r first second (.error .queueShutDown)
  | measured {start stop : UInt64} (h : w.Measures p r first second start stop) :
      Compared inv w p r first second (.ok (Elapsed.nanosBetween start stop))

/-- How a measurement of two events ends, which are bound like this. -/
inductive Outcome (inv : System World → Prop) (w : World) (start stop : Event)
    (first second : Binding) : Except Failure Int → Prop
  | unbound (h : first.position? = none ∨ second.position? = none) :
      Outcome inv w start stop first second (.error .unboundPair)
  | disabled {p r : CommandRef} (hp : first.position? = some p) (hr : second.position? = some r)
      (h : (start.flags.timingDisabled || stop.flags.timingDisabled) = true) :
      Outcome inv w start stop first second (.error .timingDisabledInPair)
  | pending {p r c : CommandRef} {x : System World} (hp : first.position? = some p)
      (hr : second.position? = some r)
      (henabled : (start.flags.timingDisabled || stop.flags.timingDisabled) = false)
      (hc : c = p ∨ c = r) (hx : inv x) (h : x.engine.status c = .pending) :
      Outcome inv w start stop first second (.error .pending)
  | compared {p r : CommandRef} {result : Except Failure Int} (hp : first.position? = some p)
      (hr : second.position? = some r)
      (henabled : (start.flags.timingDisabled || stop.flags.timingDisabled) = false)
      (hdone : w.status p = .complete ∧ w.status r = .complete)
      (h : Compared inv w p r first.recorded second.recorded result) :
      Outcome inv w start stop first second result

/-! ## Later states -/

section Later

variable {w w' : World} {p r : CommandRef} {first second : Bool}

theorem World.Grows.times? (h : w.Grows w') {c : CommandRef} {times : Timestamps}
    (hc : w.times? c = some times) : w'.times? c = some times := by
  rw [h.times?_of_complete (World.complete_of_times? hc), hc]

theorem World.Measures.grows (hgrows : w.Grows w') {start stop : UInt64}
    (h : w.Measures p r first second start stop) : w'.Measures p r first second start stop := by
  cases h with
  | ends hne hfirst hsecond ht hu =>
    exact .ends hne hfirst hsecond (hgrows.times? ht) (hgrows.times? hu)
  | @fresh t u m heq hrecorded ht hm hqueue hu =>
    have hlt := World.lt_of_status_eq_complete (World.complete_of_times? hu)
    refine .fresh heq hrecorded (hgrows.times? ht) hm ?_ (hgrows.times? hu)
    rw [hgrows.queue_command hlt, hgrows.queue_command (Nat.lt_trans hm hlt), hqueue]
  | span hends hfresh ht hu => exact .span hends hfresh (hgrows.times? ht) (hgrows.times? hu)

theorem Outcome.grows (hgrows : w.Grows w') {start stop : Event} {first second : Binding}
    {result : Except Failure Int} (h : Outcome inv w start stop first second result) :
    Outcome inv w' start stop first second result := by
  cases h with
  | unbound h => exact .unbound h
  | disabled hp hr h => exact .disabled hp hr h
  | pending hp hr henabled hc hx h => exact .pending hp hr henabled hc hx h
  | @compared p r _ hp hr henabled hdone h =>
    refine .compared hp hr henabled ⟨hgrows.status hdone.1, hgrows.status hdone.2⟩ ?_
    have hqueue := hgrows.queue_command (World.lt_of_status_eq_complete hdone.1)
    cases h with
    | @untimed c hc h =>
      have hcomplete : w.status c = .complete := by
        rcases hc with rfl | rfl
        · exact hdone.1
        · exact hdone.2
      exact .untimed hc ((hgrows.times?_of_complete hcomplete).trans h)
    | gone heq hrecorded ht hx h =>
      exact .gone heq hrecorded (hgrows.times? ht) hx (hqueue.symm ▸ h)
    | refused heq hrecorded ht hx h =>
      exact .refused heq hrecorded (hgrows.times? ht) hx (hqueue.symm ▸ h)
    | measured h => exact .measured (h.grows hgrows)

end Later

/-- Positions that have run whenever they are looked at are compared, if they can be at all. -/
theorem Outcome.compared_of_done {w : World} {p r : CommandRef} {start stop : Event}
    {first second : Binding} {result : Except Failure Int}
    (h : Outcome inv w start stop first second result) (hp : first.position? = some p)
    (hr : second.position? = some r)
    (henabled : (start.flags.timingDisabled || stop.flags.timingDisabled) = false)
    (hdone : ∀ x, inv x → x.engine.status p = .complete ∧ x.engine.status r = .complete) :
    (w.status p = .complete ∧ w.status r = .complete) ∧
      Compared inv w p r first.recorded second.recorded result := by
  cases h with
  | unbound hnone =>
    rw [hp, hr] at hnone
    rcases hnone with hnone | hnone <;> cases hnone
  | disabled _ _ htiming =>
    rw [henabled] at htiming
    cases htiming
  | @pending p' r' c x hp' hr' _ hc hx hpending =>
    cases hp.symm.trans hp'
    cases hr.symm.trans hr'
    obtain ⟨hstart, hstop⟩ := hdone x hx
    rcases hc with rfl | rfl
    · exact absurd (hpending.symm.trans hstart) nofun
    · exact absurd (hpending.symm.trans hstop) nofun
  | compared hp' hr' _ hcomplete hcompared =>
    cases hp.symm.trans hp'
    cases hr.symm.trans hr'
    exact ⟨hcomplete, hcompared⟩

/-! ## Readings -/

section Readings

variable {p r c m : CommandRef} {first second : Bool}

theorem ensures_timestampsOf (hc : system.engine.status c = .complete) :
    Ensures t inv (fun system' result => Meanwhile t system system' ∧
      ((∃ times, result = .ok times ∧ system'.engine.times? c = some times) ∨
        result = .error .noTimestamps ∧ system'.engine.times? c = none))
      (timestampsOf c).run system := by
  intro asked times found h _ hserves hlater
  have hfound := h.trans (hserves.meanwhile hlater)
  have htimes : found.engine.times? c = times :=
    (hlater.grows.times?_of_complete (h.grows.status hc)).trans hserves.timestamps.symm
  cases times with
  | none => exact ⟨hfound, .inr ⟨rfl, htimes⟩⟩
  | some times => exact ⟨hfound, .inl ⟨times, rfl, htimes⟩⟩

/-- A timed marker that is waited for has timestamps. -/
theorem ensures_markerEnd (hinv : ∀ system, inv system → system.engine.Timed)
    (hm : m < system.engine.commands.length) (htimed : (system.engine.command m).timed = true) :
    Ensures t inv (fun system' result => Meanwhile t system system' ∧
      ∃ times, result = .ok times.stop ∧ system'.engine.times? m = some times)
      (do
        Program.engine (.await m)
        return (← timestampsOf m).stop : Operation UInt64).run system := by
  intro asked₁ _ found₁ h₁ _ hserves₁ hlater₁ asked₂ times found₂ h₂ hasked₂ hserves₂ hlater₂
  have hasked := (h₁.trans (hserves₁.meanwhile hlater₁)).trans h₂
  have hdone := (hlater₁.grows.trans h₂.grows).status hserves₁.await
  have hcaptured := (hinv asked₂ hasked₂).isSome_times? hdone
  rw [hasked.grows.timed_command hm, htimed, ← hserves₂.timestamps] at hcaptured
  cases times with
  | none => cases hcaptured
  | some times =>
    refine ⟨hasked.trans (hserves₂.meanwhile hlater₂), times, rfl, ?_⟩
    exact hlater₂.grows.times? hserves₂.timestamps.symm

/-- A marker that is enqueued behind a position with timestamps is timed like that. -/
theorem ensures_freshMarkerEnd (hinv : ∀ system, inv system → system.engine.Timed) (event : Event)
    {times : Timestamps} (ht : system.engine.times? p = some times) :
    Ensures t inv (fun system' result => Meanwhile t system system' ∧
      FreshMarker t inv system p system'.engine result) (event.freshMarkerEnd p).run system := by
  have hp := World.lt_of_status_eq_complete (World.complete_of_times? ht)
  intro asked₁ owner found₁ h₁ hasked₁ hserves₁ hlater₁
  have hfound₁ := h₁.trans (hserves₁.meanwhile hlater₁)
  have howner := hserves₁.owner_eq
  have hlt := Nat.lt_of_lt_of_le hp h₁.grows.commands_le
  split at howner
  case isFalse hgone =>
    subst howner
    refine ⟨hfound₁, .gone h₁ hasked₁ ?_⟩
    rw [hlater₁.grows.queue_command hlt]
    exact Nat.eq_zero_of_not_pos hgone
  case isTrue hhandles =>
    subst howner
    have hprofiling := (hinv asked₁ hasked₁).profiling_of_times? (h₁.grows.times? ht)
    have hqueue := h₁.world.owner p hlt
    have hkept : ∀ w', asked₁.engine.Grows w' →
        (w'.command p).queue = (asked₁.engine.command p).queue := fun w' hgrows =>
      hgrows.queue_command hlt
    generalize (asked₁.engine.command p).queue = q at hprofiling hqueue hkept hhandles
    intro asked₂ _ found₂ h₂ _ hserves₂ hlater₂ asked₃ _ found₃ h₃ _ hserves₃ hlater₃ asked₄
      profiling found₄ h₄ _ hserves₄ hlater₄ asked₅ marker found₅ h₅ hasked₅ hserves₅ hlater₅
    have hlog : Meanwhile t asked₃ found₃ := by
      cases hserves₃
      exact ⟨hlater₃, fun _ _ => rfl⟩
    have h₁₄ : Meanwhile t asked₁ asked₄ :=
      ((hserves₁.meanwhile hlater₁).trans (h₂.trans (hserves₂.meanwhile hlater₂))).trans
        ((h₃.trans hlog).trans h₄)
    have h₁₅ : Meanwhile t asked₁ asked₅ := h₁₄.trans ((hserves₄.meanwhile hlater₄).trans h₅)
    have hfound : Meanwhile t asked₁ found₅ := h₁₅.trans (hserves₅.meanwhile hlater₅)
    obtain rfl : profiling = true :=
      hserves₄.profiling.trans ((h₁₄.grows.queue q hqueue).2.1.trans hprofiling)
    obtain ⟨hvalue, hstate⟩ := hserves₅.marker
    cases marker with
    | error failure =>
      obtain ⟨rfl, haccepting⟩ := World.refused_of_value_submit (h₅.world.alive _) hvalue.symm
      refine ⟨h₁.trans hfound, .refused (h₁.trans h₁₅) hasked₅ ?_⟩
      rw [hkept _ hfound.grows]
      exact haccepting
    | ok m =>
      obtain ⟨hm, hcommand⟩ := World.command_of_value_submit hvalue.symm
      rw [← World.enqueueMarker, ← hstate] at hcommand
      have hlt : m < found₅.engine.commands.length := by
        rw [hstate]
        exact World.lt_of_value_submit hvalue.symm
      have htimed : (found₅.engine.command m).timed = true := by
        rw [hcommand, (h₁₅.grows.queue q hqueue).2.1, hprofiling]
        rfl
      refine (ensures_markerEnd hinv hlt htimed).imp _ ?_
      rintro system' _ ⟨hmeanwhile, u, rfl, hu⟩
      have hsame := hkept _ (hfound.grows.trans hmeanwhile.grows)
      refine ⟨(h₁.trans hfound).trans hmeanwhile,
        .taken ⟨h₁, hasked₁⟩ ?_ ⟨h₁.trans h₁₅, hasked₅⟩ ?_ (m := m) ?_ ?_ hu⟩
      · rw [hsame]
        exact hhandles
      · rw [hsame]
        exact World.accepting_of_takes (World.takes_of_value_submit hvalue.symm)
      · rw [hm]
        exact Nat.lt_of_lt_of_le hp (h₁.grows.trans h₁₅.grows).commands_le
      · rw [hmeanwhile.grows.queue_command hlt, hcommand, hsame]

/-- The end of the second reading, where that is not of a fresh marker. -/
theorem ensures_stopOf {times : Timestamps} {reading : UInt64}
    (ht : system.engine.times? p = some times) (hr : system.engine.status r = .complete)
    (hmeasures : ∀ w u, w.times? p = some times → w.times? r = some u →
      World.Measures w p r first second reading u.stop) :
    Ensures t inv (fun system' result => Meanwhile t system system' ∧
      Compared inv system'.engine p r first second result)
      (do return Elapsed.nanosBetween reading (← timestampsOf r).stop : Operation Int).run
        system := by
  refine ensures_bind _ (ensures_timestampsOf hr) ?_ ?_
  · rintro system' failure ⟨hlater, ⟨times, hresult, -⟩ | ⟨hresult, hnone⟩⟩
    · cases hresult
    · cases hresult
      exact ⟨hlater, .untimed (.inr rfl) hnone⟩
  · rintro system' stopTimes ⟨hlater, ⟨times', hresult, hu⟩ | ⟨hresult, -⟩⟩
    · cases hresult
      exact ⟨hlater, .measured (hmeasures _ _ (hlater.grows.times? ht) hu)⟩
    · cases hresult

theorem ensures_nanosBetween (hinv : ∀ system, inv system → system.engine.Timed) (start : Event)
    (hp : system.engine.status p = .complete) (hr : system.engine.status r = .complete) :
    Ensures t inv (fun system' result => Meanwhile t system system' ∧
      Compared inv system'.engine p r first second result)
      (start.nanosBetween first second p r).run system := by
  refine ensures_bind _ (ensures_timestampsOf hp) ?_ ?_
  · rintro system' failure ⟨hlater, ⟨times, hresult, -⟩ | ⟨hresult, hnone⟩⟩
    · cases hresult
    · cases hresult
      exact ⟨hlater, .untimed (.inl rfl) hnone⟩
  · rintro found times ⟨hfound, ⟨times', hresult, ht⟩ | ⟨hresult, -⟩⟩
    case inr => cases hresult
    cases hresult
    have hpost : ∀ system' result, Meanwhile t found system' ∧
        Compared inv system'.engine p r first second result →
          Meanwhile t system system' ∧ Compared inv system'.engine p r first second result := by
      rintro system' result ⟨hlater, hcompared⟩
      exact ⟨hfound.trans hlater, hcompared⟩
    split
    next hends =>
      refine (ensures_stopOf ht (hfound.grows.status hr) ?_).imp _ hpost
      intro w u ht hu
      exact .ends hends.1 hends.2.1 hends.2.2 ht hu
    next hends =>
      split
      next hfresh =>
        refine (ensures_bind _ (ensures_freshMarkerEnd hinv start ht) ?_ ?_).imp _ hpost
        · rintro system' failure ⟨hlater, hfailed⟩
          have ht' := hlater.grows.times? ht
          cases hfailed with
          | gone _ hx hgone => exact ⟨hlater, .gone hfresh.1 hfresh.2 ht' hx hgone⟩
          | refused _ hx hrefused => exact ⟨hlater, .refused hfresh.1 hfresh.2 ht' hx hrefused⟩
        · rintro system' stop ⟨hlater, htaken⟩
          cases htaken with
          | taken _ _ _ _ hm hqueue hu =>
            exact ⟨hlater, .measured
              (.fresh hfresh.1 hfresh.2 (hlater.grows.times? ht) hm hqueue hu)⟩
      next hfresh =>
        refine (ensures_stopOf ht (hfound.grows.status hr) ?_).imp _ hpost
        intro w u ht hu
        exact .span hends hfresh ht hu

end Readings

/-! ## Measuring two events -/

section Events

variable {c : CommandRef} {start stop : Event}

/-- Whether a command is ready is told as it was at some moment. -/
theorem ensures_isReady_at :
    Ensures t inv (fun system' ready => ∃ x, Meanwhile t system x ∧ inv x ∧ Meanwhile t x system' ∧
      x.engine.status c = if ready then .complete else .pending) (isReady c) system := by
  intro asked₁ status₁ found₁ h₁ hasked₁ hserves₁ hlater₁
  show Ensures t inv _ (ite _ _ _) found₁
  have hstatus₁ := hserves₁.status
  split
  next hcomplete => exact ⟨asked₁, h₁, hasked₁, hserves₁.meanwhile hlater₁, hstatus₁ ▸ hcomplete⟩
  next =>
    refine ensures_engine fun asked₂ _ found₂ h₂ h₂' _ _ => ?_
    intro asked₃ status₃ found₃ h₃ hasked₃ hserves₃ hlater₃
    have hasked := (h₁.trans (hserves₁.meanwhile hlater₁)).trans ((h₂.trans h₂').trans h₃)
    refine ⟨asked₃, hasked, hasked₃, hserves₃.meanwhile hlater₃, ?_⟩
    rw [← hserves₃.status]
    cases status₃ <;> rfl

/-- An operation may go on by whether a command is ready. -/
theorem ensures_bind_isReady {post : System World → Except Failure α → Prop}
    {next : Bool → Operation α}
    (hready : ∀ x system', Meanwhile t system x → inv x → Meanwhile t x system' →
      x.engine.status c = .complete → Ensures t inv post (next true).run system')
    (hpending : ∀ x system', Meanwhile t system x → inv x → Meanwhile t x system' →
      x.engine.status c = .pending → Ensures t inv post (next false).run system') :
    Ensures t inv post ((liftM (isReady c) : Operation Bool) >>= next).run system := by
  show Ensures t inv post (((isReady c).andThen _).andThen _) system
  rw [Program.andThen_assoc]
  refine ensures_isReady_at.andThen ?_
  rintro system' ready ⟨x, hlater, hx, hlater', hstatus⟩
  cases ready with
  | true => exact hready x system' hlater hx hlater' hstatus
  | false => exact hpending x system' hlater hx hlater' hstatus

section Locks

variable {operation : Operation α} {post : System World → Except Failure α → Prop}
  (hpost : ∀ system system' result, Later system system' → post system result →
    post system' result)
include hpost

theorem ensures_guarding_guarding {first second : Event}
    (hfirst : first.ordinal < system.cells.length) (hsecond : second.ordinal < system.cells.length)
    (hne : first.ordinal ≠ second.ordinal)
    (hbody : ∀ locked, Later system locked → holder locked first.ordinal = some t →
      holder locked second.ordinal = some t →
        Ensures t inv (fun system' result => Meanwhile t locked system' ∧ post system' result)
          operation.run locked) :
    Ensures t inv post (first.guarding (second.guarding operation)).run system := by
  refine ensures_locking_kept hfirst fun locked₁ hlocked₁ hheld₁ => ?_
  have hsecond₁ := Nat.lt_of_lt_of_le hsecond hlocked₁.cells_le
  refine ensures_locking_kept hsecond₁ fun locked₂ hlocked₂ hheld₂ => ?_
  have hlocked := hlocked₁.toLater.trans hlocked₂.toLater
  refine (hbody locked₂ hlocked (hlocked₂.holder hheld₁) hheld₂).imp _ ?_
  rintro system' result ⟨hlater, hend⟩
  refine ⟨hlater.holder hheld₂, ?_⟩
  intro system'' hlater' _ hkept
  have hheld : holder system' first.ordinal = some t := hlater.holder (hlocked₂.holder hheld₁)
  refine ⟨?_, ?_⟩
  · rw [← hheld]
    exact congrArg EventCell.holder (hkept first hne hheld)
  · intro system''' hlater'' _ _
    exact hpost _ _ _ (hlater'.trans hlater'') hend

/-- What happens under both locks happens to events that nobody else touches. -/
theorem ensures_guardingBoth (hstart : start.ordinal < system.cells.length)
    (hstop : stop.ordinal < system.cells.length) (hne : start.ordinal ≠ stop.ordinal)
    (hbody : ∀ locked, Later system locked → holder locked start.ordinal = some t →
      holder locked stop.ordinal = some t →
        Ensures t inv (fun system' result => Meanwhile t locked system' ∧ post system' result)
          operation.run locked) :
    Ensures t inv post (Event.guardingBoth start stop operation).run system := by
  unfold Event.guardingBoth
  split
  · exact ensures_guarding_guarding hpost hstart hstop hne hbody
  · refine ensures_guarding_guarding hpost hstop hstart hne.symm ?_
    intro locked hlocked hheld hheld'
    exact hbody locked hlocked hheld' hheld

end Locks

/-- What is left of a measurement of two events once both locks are taken. -/
def Event.nanosHeld (start stop : Event) : Operation Int := do
  let startBinding ← Program.request (.binding start)
  let stopBinding ← Program.request (.binding stop)
  match startBinding.position?, stopBinding.position? with
  | some startPosition, some stopPosition =>
    if start.flags.timingDisabled || stop.flags.timingDisabled then throw .timingDisabledInPair
    if !(← isReady startPosition) then throw .pending
    if !(← isReady stopPosition) then throw .pending
    start.nanosBetween startBinding.recorded stopBinding.recorded startPosition stopPosition
  | _, _ => throw .unboundPair

theorem Event.nanosToOther_eq (start stop : Event) :
    Event.nanosToOther start stop = Event.guardingBoth start stop (Event.nanosHeld start stop) := rfl

/-- Who holds both events finds them bound as nobody else can change it. -/
theorem ensures_nanosHeld (hinv : ∀ system, inv system → system.engine.Timed)
    (hheld : holder system start.ordinal = some t) :
    Ensures t inv (fun system' result => Meanwhile t system system' ∧
      ∃ x, Meanwhile t system x ∧ inv x ∧
        Outcome inv system'.engine start stop (x.binding start) (x.binding stop) result)
      (Event.nanosHeld start stop).run system := by
  refine ensures_bind_binding fun read₁ hread₁ _ => ?_
  refine ensures_bind_binding fun read₂ hread₂ hinv₂ => ?_
  -- nobody has bound the first event since
  rw [← hread₂.binding (hread₁.holder hheld)]
  have hread := hread₁.trans hread₂
  refine Ensures.imp (fun system' result => Meanwhile t read₂ system' ∧
    Outcome inv system'.engine start stop (read₂.binding start) (read₂.binding stop) result) ?_ ?_
  · have hrefl : Meanwhile t read₂ read₂ := .refl hread.world hread.filed
    split
    next p r hp hr =>
      split
      next hdisabled => exact ⟨hrefl, .disabled hp hr hdisabled⟩
      next henabled =>
        have henabled := Bool.eq_false_iff.2 henabled
        refine ensures_bind_isReady ?_ ?_
        case refine_2 =>
          intro x found hx₁ hx hfound hpending
          exact ⟨hx₁.trans hfound, .pending hp hr henabled (.inl rfl) hx hpending⟩
        intro x₁ ready₁ hx₁ _ hfound₁ hstatus₁
        have hready₁ := hx₁.trans hfound₁
        refine ensures_bind_isReady ?_ ?_
        case refine_2 =>
          intro x found hx₂ hx hfound hpending
          exact ⟨hready₁.trans (hx₂.trans hfound), .pending hp hr henabled (.inr rfl) hx hpending⟩
        intro x₂ ready₂ hx₂ _ hfound₂ hstatus₂
        have hready₂ := hx₂.trans hfound₂
        have hdone := (hfound₁.trans hready₂).grows.status hstatus₁
        have hdone₂ := hfound₂.grows.status hstatus₂
        refine (ensures_nanosBetween hinv start hdone hdone₂).imp _ ?_
        rintro system' result ⟨hlater, hcompared⟩
        exact ⟨(hready₁.trans hready₂).trans hlater, .compared hp hr henabled
          ⟨hlater.grows.status hdone, hlater.grows.status hdone₂⟩ hcompared⟩
    next hunbound =>
      refine ⟨hrefl, .unbound ?_⟩
      cases hp : (read₂.binding start).position? with
      | none => exact .inl rfl
      | some p =>
        cases hr : (read₂.binding stop).position? with
        | none => exact .inr rfl
        | some r => exact absurd hr (hunbound p r hp)
  · rintro system' result ⟨hlater, houtcome⟩
    exact ⟨hread.trans hlater, read₂, hread, hinv₂, houtcome⟩

theorem ensures_nanosToOther (hinv : ∀ system, inv system → system.engine.Timed)
    (hstart : start.ordinal < system.cells.length) (hstop : stop.ordinal < system.cells.length)
    (hne : start.ordinal ≠ stop.ordinal) :
    Ensures t inv (fun system' result => ∃ x, inv x ∧
      Outcome inv system'.engine start stop (x.binding start) (x.binding stop) result)
      (Event.nanosToOther start stop).run system := by
  rw [Event.nanosToOther_eq]
  refine ensures_guardingBoth ?_ hstart hstop hne ?_
  · rintro system' system'' result hlater ⟨x, hx, houtcome⟩
    exact ⟨x, hx, houtcome.grows hlater.grows⟩
  intro locked _ hheld _
  refine (ensures_nanosHeld hinv hheld).imp _ ?_
  rintro system' result ⟨hlater, x, -, hx, houtcome⟩
  exact ⟨hlater, x, hx, houtcome⟩

/-- What a measurement of two events ends with is what it found at some moment of the call. -/
theorem ensures_elapsedTime (hinv : ∀ system, inv system → system.engine.Timed)
    (hstart : start.ordinal < system.cells.length) (hstop : stop.ordinal < system.cells.length)
    (hne : start.ordinal ≠ stop.ordinal) :
    Ensures t inv (fun system' result => ∃ x nanos, inv x ∧
      Outcome inv system'.engine start stop (x.binding start) (x.binding stop) nanos ∧
        result = nanos.map Elapsed.millis)
      (start.elapsedTime stop).run system := by
  have hnanos : Ensures t inv (fun system' result => ∃ x, inv x ∧
      Outcome inv system'.engine start stop (x.binding start) (x.binding stop) result)
      (start.elapsedNanos stop).run system := by
    rw [Event.elapsedNanos, if_neg hne]
    exact ensures_nanosToOther hinv hstart hstop hne
  refine ensures_bind _ hnanos ?_ ?_
  · rintro system' failure ⟨x, hx, houtcome⟩
    exact ⟨x, .error failure, hx, houtcome, rfl⟩
  · rintro system' nanos ⟨x, hx, houtcome⟩
    exact ⟨x, .ok nanos, hx, houtcome, rfl⟩

end Events

/-! ## Calls that returned -/

namespace Machine

variable {s s' : Machine} {history : History} {start stop : Event}

/-- A measurement of two events ends with what it found at some moment of the call. -/
theorem outcome_of_elapsedTime (hs : s.Reachable) (hne : start.ordinal ≠ stop.ordinal)
    {result : Except Failure Single}
    (h : Returns t (.elapsedTime start stop) s history result s') :
    ∃ x nanos, During s history x ∧
      Outcome (fun system => ∃ y, During s history y ∧ y.system = system) s'.world start stop
        (x.system.binding start) (x.system.binding stop) nanos ∧
        result = nanos.map Elapsed.millis := by
  have hallowed := h.allows.2
  have hstart := hallowed.events start (by simp [Call.events])
  have hstop := hallowed.events stop (by simp [Call.events])
  have htimed : ∀ system, (∃ y, During s history y ∧ y.system = system) →
      system.engine.Timed := by
    rintro _ ⟨y, hy, rfl⟩
    exact timed_of_reachable (hy.reachable hs)
  obtain ⟨_, nanos, ⟨x, hx, rfl⟩, houtcome, hresult⟩ :=
    h.ensures_during (sound_of_reachable hs) (ensures_elapsedTime htimed hstart hstop hne)
  exact ⟨x, nanos, hx, houtcome, hresult⟩

end Machine

end SyncPoint.Host
