import SyncPoint.Proofs.Atomicity
import SyncPoint.Proofs.Machine.Alone
import SyncPoint.Proofs.Machine.Verdict

/-!
# What keeps two events from being measured

The checks of a measurement look at the first event before the second, and some of them at the first
alone.  Yet what they find is a fact about both (`Hindered`), which does not depend on which of them
comes first (`Hindered.symm`).  It is what `documented?` says (`documented?_iff`), and a thread that
goes on alone is told it (`run_of_hindered`).

A call that fails leaves the queues to the workers, so that from its beginning to the moment at which
it found what hinders it, workers alone change them.  They can do the same while somebody measures
the other way (`Machine.Run.workers`).
-/

namespace SyncPoint.Host

/-- Two events are at these positions, and can measure time. -/
structure Placed (system : System World) (a b : Event) (p r : CommandRef) : Prop where
  first : (system.binding a).position? = some p
  second : (system.binding b).position? = some r
  enabled : (a.flags.timingDisabled || b.flags.timingDisabled) = false

/-- Why two events cannot be measured, in the words in which it is told. -/
inductive Hindered (system : System World) (a b : Event) : Failure → Prop
  | unbound (h : (system.binding a).position? = none ∨ (system.binding b).position? = none) :
      Hindered system a b .unboundPair
  | disabled {p r : CommandRef} (hp : (system.binding a).position? = some p)
      (hr : (system.binding b).position? = some r)
      (h : (a.flags.timingDisabled || b.flags.timingDisabled) = true) :
      Hindered system a b .timingDisabledInPair
  | pending {p r : CommandRef} (hplaced : Placed system a b p r)
      (h : system.engine.status p = .pending ∨ system.engine.status r = .pending) :
      Hindered system a b .pending
  | untimed {p r : CommandRef} (hplaced : Placed system a b p r)
      (hdone : system.engine.status p = .complete ∧ system.engine.status r = .complete)
      (h : system.engine.times? p = none ∨ system.engine.times? r = none) :
      Hindered system a b .noTimestamps
  /-- They share a position, so that a marker is needed, and nobody has a handle of its queue. -/
  | gone {p : CommandRef} {times : Timestamps} (hplaced : Placed system a b p p)
      (htimes : system.engine.times? p = some times)
      (hrecorded : (system.binding a).recorded = true ∨ (system.binding b).recorded = true)
      (h : (system.engine.queue (system.engine.command p).queue).handles = 0) :
      Hindered system a b .positionQueueGone
  /-- They share a position, so that a marker is needed, and its queue takes none. -/
  | refused {p : CommandRef} {times : Timestamps} (hplaced : Placed system a b p p)
      (htimes : system.engine.times? p = some times)
      (hrecorded : (system.binding a).recorded = true ∨ (system.binding b).recorded = true)
      (hhandles : 0 < (system.engine.queue (system.engine.command p).queue).handles)
      (h : (system.engine.queue (system.engine.command p).queue).accepting = false) :
      Hindered system a b .queueShutDown

variable {α : Type} {t : ThreadId} {system system' : System World} {a b : Event}
  {p r c : CommandRef} {kind : FailureKind} {failure : Failure}

theorem Placed.symm (h : Placed system a b p r) : Placed system b a r p :=
  ⟨h.second, h.first, by rw [Bool.or_comm, h.enabled]⟩

/-- Two events that cannot be measured one way cannot be measured the other way, for the same
reason. -/
theorem Hindered.symm (h : Hindered system a b failure) : Hindered system b a failure := by
  cases h with
  | unbound h => exact .unbound h.symm
  | disabled hp hr h => exact .disabled hr hp (by rw [Bool.or_comm, h])
  | pending hplaced h => exact .pending hplaced.symm h.symm
  | untimed hplaced hdone h => exact .untimed hplaced.symm hdone.symm h.symm
  | gone hplaced htimes hrecorded h => exact .gone hplaced.symm htimes hrecorded.symm h
  | refused hplaced htimes hrecorded hhandles h =>
    exact .refused hplaced.symm htimes hrecorded.symm hhandles h

/-! ## The checks -/

theorem complete_of_ne_pending {status : Status} (h : status ≠ .pending) : status = .complete := by
  cases status with
  | pending => exact absurd rfl h
  | complete => rfl

theorem Placed.unready? (h : Placed system a b p r)
    (hdone : system.engine.status p = .complete ∧ system.engine.status r = .complete) :
    unready? system a b = none :=
  unready?_of_complete h.first h.second h.enabled hdone

/-- The last check comes to what the queue of a shared position says. -/
theorem Placed.unmarkable? (h : Placed system a b p p) {times : Timestamps}
    (hne : a.ordinal ≠ b.ordinal) (htimes : system.engine.times? p = some times)
    (hrecorded : (system.binding a).recorded = true ∨ (system.binding b).recorded = true) :
    documented? system a b = if system.engine.canAdvance (system.engine.command p).queue then none
      else some .resourceExhausted := by
  have hdone := World.complete_of_times? htimes
  have htimed : (system.engine.times? p).isSome = true := by rw [htimes]; rfl
  rw [documented?_of_timed h.first h.second (h.unready? ⟨hdone, hdone⟩) htimed htimed,
    unmarkable?_of_shared h.first h.second hne hrecorded]

theorem Hindered.documented? (h : Hindered system a b failure) (hne : a.ordinal ≠ b.ordinal) :
    documented? system a b = some failure.kind := by
  cases h with
  | unbound h => exact documented?_of_unready (unready?_of_unbound h)
  | disabled hp hr h => exact documented?_of_unready (unready?_of_disabled hp hr h)
  | pending hplaced h =>
    exact documented?_of_unready (unready?_of_pending hplaced.first hplaced.second hplaced.enabled h)
  | untimed hplaced hdone h =>
    exact documented?_of_untimed hplaced.first hplaced.second (hplaced.unready? hdone) h
  | gone hplaced htimes hrecorded h =>
    rw [hplaced.unmarkable? hne htimes hrecorded, World.canAdvance, h]
    rfl
  | refused hplaced htimes hrecorded _ h =>
    rw [hplaced.unmarkable? hne htimes hrecorded, World.canAdvance, h, Bool.and_false]
    rfl

theorem hindered_of_documented? (hne : a.ordinal ≠ b.ordinal)
    (h : documented? system a b = some kind) :
    ∃ failure, Hindered system a b failure ∧ failure.kind = kind := by
  have hkind : ∀ {failure : Failure}, Hindered system a b failure →
      ∃ failure, Hindered system a b failure ∧ failure.kind = kind := by
    intro failure hhindered
    refine ⟨failure, hhindered, ?_⟩
    rw [hhindered.documented? hne] at h
    exact Option.some.inj h
  cases hp : (system.binding a).position? with
  | none => exact hkind (.unbound (.inl hp))
  | some p =>
    cases hr : (system.binding b).position? with
    | none => exact hkind (.unbound (.inr hr))
    | some r =>
      cases henabled : a.flags.timingDisabled || b.flags.timingDisabled with
      | true => exact hkind (.disabled hp hr henabled)
      | false =>
        have hplaced : Placed system a b p r := ⟨hp, hr, henabled⟩
        by_cases hpending : system.engine.status p = .pending ∨ system.engine.status r = .pending
        · exact hkind (.pending hplaced hpending)
        have hdone : system.engine.status p = .complete ∧ system.engine.status r = .complete := by
          rw [not_or] at hpending
          exact ⟨complete_of_ne_pending hpending.1, complete_of_ne_pending hpending.2⟩
        by_cases huntimed : system.engine.times? p = none ∨ system.engine.times? r = none
        · exact hkind (.untimed hplaced hdone huntimed)
        rw [not_or] at huntimed
        obtain ⟨times, htimes⟩ := Option.ne_none_iff_exists'.1 huntimed.1
        by_cases hshared : p = r ∧
            ((system.binding a).recorded = true ∨ (system.binding b).recorded = true)
        · obtain ⟨rfl, hrecorded⟩ := hshared
          rw [hplaced.unmarkable? hne htimes hrecorded] at h
          have hstuck : ¬ system.engine.canAdvance (system.engine.command p).queue = true := by
            intro hadvance
            rw [if_pos hadvance] at h
            cases h
          rcases Nat.eq_zero_or_pos
            (system.engine.queue (system.engine.command p).queue).handles with hgone | hhandles
          · exact hkind (.gone hplaced htimes hrecorded hgone)
          · refine hkind (.refused hplaced htimes hrecorded hhandles ?_)
            simpa [World.canAdvance, hhandles] using hstuck
        · obtain ⟨times', htimes'⟩ := Option.ne_none_iff_exists'.1 huntimed.2
          rw [documented?_of_timed hp hr (hplaced.unready? hdone) (by rw [htimes]; rfl)
            (by rw [htimes']; rfl), unmarkable?_of_apart hp hr hshared] at h
          cases h

/-- A measurement of two events is documented to fail exactly where something hinders it. -/
theorem documented?_iff (hne : a.ordinal ≠ b.ordinal) : documented? system a b = some kind ↔
    ∃ failure, Hindered system a b failure ∧ failure.kind = kind := by
  refine ⟨hindered_of_documented? hne, ?_⟩
  rintro ⟨failure, hhindered, rfl⟩
  exact hhindered.documented? hne

theorem documented?_comm (hne : a.ordinal ≠ b.ordinal) :
    documented? system a b = documented? system b a := by
  refine Option.ext fun kind => ?_
  rw [documented?_iff hne, documented?_iff hne.symm]
  constructor
  · rintro ⟨failure, hhindered, hkind⟩
    exact ⟨failure, hhindered.symm, hkind⟩
  · rintro ⟨failure, hhindered, hkind⟩
    exact ⟨failure, hhindered.symm, hkind⟩

/-! ## A thread that goes on alone -/

/-- An operation that fails does not go on. -/
theorem run_bind_error {β : Type} {operation : Operation β} {next : β → Operation α}
    (h : operation.run.run (System.serve stillEngine t) system = some (.error failure, system')) :
    (operation >>= next).run.run (System.serve stillEngine t) system =
      some (.error failure, system') := by
  show (operation.run.andThen _).run _ _ = _
  rw [Program.run_andThen, h]
  rfl

theorem run_isReady_of_pending (h : system.engine.status c = .pending) :
    (isReady c).run (System.serve stillEngine t) system = some (false, system) := by
  have hstatus : System.serve stillEngine t (.engine (.status c)) system =
      some (.pending, system) := by
    apply serve_tell
    rw [World.serve, h]
  have hadvance : System.serve stillEngine t (.engine (.tryAdvance c)) system =
      some (system.engine.canAdvance (system.engine.command c).queue, system) := serve_tell rfl
  exact (run_ask hstatus).trans ((run_ask hadvance).trans (run_ask hstatus))

theorem run_timestampsOf_of_none (h : system.engine.times? c = none) :
    (timestampsOf c).run.run (System.serve stillEngine t) system =
      some (.error .noTimestamps, system) := by
  have htimes : System.serve stillEngine t (.engine (.timestamps c)) system =
      some (none, system) := by
    apply serve_tell
    rw [World.serve, h]
  exact run_ask htimes

theorem run_freshMarkerEnd_of_gone
    (h : (system.engine.queue (system.engine.command p).queue).handles = 0) :
    ∃ system', (a.freshMarkerEnd p).run.run (System.serve stillEngine t) system =
      some (.error .positionQueueGone, system') := by
  have howner : System.serve stillEngine t (.engine (.owner p)) system = some (none, system) := by
    apply serve_tell
    simp [World.serve, h]
  exact ⟨system, run_ask howner⟩

/-- A request of the engine is answered alone. -/
theorem run_engine {request : EngineRequest} {answer : request.Answer}
    (h : System.serve stillEngine t (.engine request) system = some (answer, system')) :
    (Program.engine request).run (System.serve stillEngine t) system = some (answer, system') :=
  run_ask h

theorem run_freshMarkerEnd_of_refused
    (hhandles : 0 < (system.engine.queue (system.engine.command p).queue).handles)
    (h : (system.engine.queue (system.engine.command p).queue).accepting = false) :
    ∃ system', (a.freshMarkerEnd p).run.run (System.serve stillEngine t) system =
      some (.error .queueShutDown, system') := by
  have howner : System.serve stillEngine t (.engine (.owner p)) system =
      some (some (system.engine.command p).queue, system) := by
    apply serve_tell
    simp [World.serve, hhandles]
  have hrefused : ∀ (log : List LogEntry) (request : MarkerRequest CommandRef),
      System.serve stillEngine t
        (.engine (.enqueueMarker (system.engine.command p).queue request))
          { system with log := log } = some (.error .queueShutDown, { system with log := log }) := by
    intro log request
    simp [System.serve, stillEngine, World.serve, World.enqueueMarker, World.submit, h]
  rw [Event.freshMarkerEnd, run_bind_lift (run_engine howner)]
  simp only []
  rw [run_bind_lift (run_engine (serve_tell rfl)), run_bind_lift (run_ask rfl),
    run_bind_lift (run_engine (serve_tell rfl))]
  exact ⟨_, run_bind_error (run_ask (hrefused _ _))⟩

/-- The comparison of two positions that have run fails for what hinders it. -/
theorem run_nanosBetween_of_hindered (h : Hindered system a b failure)
    (hplaced : Placed system a b p r)
    (hdone : system.engine.status p = .complete ∧ system.engine.status r = .complete) :
    ∃ system', (a.nanosBetween (system.binding a).recorded (system.binding b).recorded p r).run.run
      (System.serve stillEngine t) system = some (.error failure, system') := by
  have hsame : ∀ {p' r' : CommandRef}, Placed system a b p' r' → p = p' ∧ r = r' := by
    intro p' r' hplaced'
    exact ⟨Option.some.inj (hplaced.first.symm.trans hplaced'.first),
      Option.some.inj (hplaced.second.symm.trans hplaced'.second)⟩
  unfold Event.nanosBetween
  cases h with
  | unbound h =>
    rcases h with h | h
    · cases h.symm.trans hplaced.first
    · cases h.symm.trans hplaced.second
  | disabled _ _ h => cases h.symm.trans hplaced.enabled
  | pending hplaced' h =>
    obtain ⟨rfl, rfl⟩ := hsame hplaced'
    rcases h with h | h
    · cases h.symm.trans hdone.1
    · cases h.symm.trans hdone.2
  | untimed hplaced' _ h =>
    obtain ⟨rfl, rfl⟩ := hsame hplaced'
    cases hp : system.engine.times? p with
    | none => exact ⟨_, run_bind_error (run_timestampsOf_of_none hp)⟩
    | some times =>
      have hr : system.engine.times? r = none := by
        rcases h with h | h
        · cases h.symm.trans hp
        · exact h
      have hne : p ≠ r := by
        rintro rfl
        cases hr.symm.trans hp
      rw [run_bind (run_timestampsOf hp)]
      -- whichever reading is compared, the second command has none
      split
      next => exact ⟨_, run_bind_error (run_timestampsOf_of_none hr)⟩
      next =>
        rw [if_neg fun hshared => hne hshared.1]
        exact ⟨_, run_bind_error (run_timestampsOf_of_none hr)⟩
  | gone hplaced' htimes hrecorded h =>
    obtain ⟨rfl, rfl⟩ := hsame hplaced'
    obtain ⟨system', hgone⟩ := run_freshMarkerEnd_of_gone (t := t) (a := a) h
    rw [run_bind (run_timestampsOf htimes), if_neg fun hapart => hapart.1 rfl,
      if_pos ⟨rfl, hrecorded⟩]
    exact ⟨_, run_bind_error hgone⟩
  | refused hplaced' htimes hrecorded hhandles h =>
    obtain ⟨rfl, rfl⟩ := hsame hplaced'
    obtain ⟨system', hrefused⟩ := run_freshMarkerEnd_of_refused (t := t) (a := a) hhandles h
    rw [run_bind (run_timestampsOf htimes), if_neg fun hapart => hapart.1 rfl,
      if_pos ⟨rfl, hrecorded⟩]
    exact ⟨_, run_bind_error hrefused⟩

theorem Placed.congr (h : Placed system a b p r)
    (hbinding : ∀ event, system'.binding event = system.binding event) : Placed system' a b p r :=
  ⟨by rw [hbinding, h.first], by rw [hbinding, h.second], h.enabled⟩

/-- What hinders depends on what the events are bound to and on the queues alone. -/
theorem Hindered.congr (h : Hindered system a b failure) (hengine : system'.engine = system.engine)
    (hbinding : ∀ event, system'.binding event = system.binding event) :
    Hindered system' a b failure := by
  cases h with
  | unbound h => exact .unbound (by rwa [hbinding, hbinding])
  | disabled hp hr h => exact .disabled (by rwa [hbinding]) (by rwa [hbinding]) h
  | pending hplaced h => exact .pending (hplaced.congr hbinding) (by rwa [hengine])
  | untimed hplaced hdone h =>
    exact .untimed (hplaced.congr hbinding) (by rwa [hengine]) (by rwa [hengine])
  | gone hplaced htimes hrecorded h =>
    exact .gone (hplaced.congr hbinding) (by rwa [hengine]) (by rwa [hbinding, hbinding])
      (by rwa [hengine])
  | refused hplaced htimes hrecorded hhandles h =>
    exact .refused (hplaced.congr hbinding) (by rwa [hengine]) (by rwa [hbinding, hbinding])
      (by rwa [hengine]) (by rwa [hengine])

/-- Two events that nobody holds are not measured, if something hinders it. -/
theorem run_of_hindered (h : Hindered system a b failure) (hne : a.ordinal ≠ b.ordinal)
    (ha : holder system a.ordinal = none) (hb : holder system b.ordinal = none) :
    ∃ system', (a.elapsedTime b).run.run (System.serve stillEngine t) system =
      some (.error failure, system') := by
  suffices hnanos : ∃ system', (a.elapsedNanos b).run.run (System.serve stillEngine t) system =
      some (.error failure, system') by
    obtain ⟨system', hnanos⟩ := hnanos
    exact ⟨system', run_bind_error hnanos⟩
  rw [Event.elapsedNanos, if_neg hne]
  apply run_guardingBoth hne ha hb
  intro locked hengine hbinding
  replace h := h.congr hengine hbinding
  have hbindings : ∀ event, (Program.request (.binding event)).run (System.serve stillEngine t)
      locked = some (locked.binding event, locked) := fun _ => rfl
  rw [run_bind_lift (hbindings a), run_bind_lift (hbindings b)]
  by_cases hready : ∃ p r, Placed locked a b p r ∧
      locked.engine.status p = .complete ∧ locked.engine.status r = .complete
  · obtain ⟨p, r, hplaced, hdone⟩ := hready
    rw [hplaced.first, hplaced.second]
    simp only [hplaced.enabled]
    obtain ⟨system', hcompared⟩ := run_nanosBetween_of_hindered (t := t) h hplaced hdone
    refine ⟨system', ?_⟩
    refine (run_bind_lift (run_isReady hdone.1)).trans ?_
    exact (run_bind_lift (run_isReady hdone.2)).trans hcompared
  refine ⟨locked, ?_⟩
  cases h with
  | unbound h =>
    split
    next p r hp hr =>
      rcases h with h | h
      · cases h.symm.trans hp
      · cases h.symm.trans hr
    next => rfl
  | disabled hp hr h =>
    rw [hp, hr]
    simp only [h]
    rfl
  | @pending p r hplaced h =>
    rw [hplaced.first, hplaced.second]
    simp only [hplaced.enabled]
    by_cases hp : locked.engine.status p = .pending
    · exact run_bind_lift (run_isReady_of_pending hp)
    · have hdone := complete_of_ne_pending hp
      have hr := h.resolve_left hp
      exact (run_bind_lift (run_isReady hdone)).trans (run_bind_lift (run_isReady_of_pending hr))
  | untimed hplaced hdone => exact absurd ⟨_, _, hplaced, hdone⟩ hready
  | gone hplaced htimes | refused hplaced htimes =>
    have hdone := World.complete_of_times? htimes
    exact absurd ⟨_, _, hplaced, hdone, hdone⟩ hready

/-! ## Locks that are held -/

variable {inv : System World → Prop} {post : System World → α → Prop}

/-- Nobody gets past a lock that stays held. -/
theorem ensures_locking_held {event : Event} {body : Program α}
    (hheld : ∀ asked, inv asked → holder asked event.ordinal ≠ none) :
    Ensures t inv post (event.locking body) system := by
  intro asked answer locked _ hinv hserves _
  cases hserves with
  | lock _ hfree => exact absurd hfree (hheld asked hinv)

theorem ensures_guardingBoth_held {operation : Operation α}
    (hheld : (∀ asked, inv asked → holder asked a.ordinal ≠ none) ∨
      ∀ asked, inv asked → holder asked b.ordinal ≠ none) :
    Ensures t inv (fun _ _ => False) (Event.guardingBoth a b operation).run system := by
  have hboth : ∀ {first second : Event}, (∀ asked, inv asked → holder asked first.ordinal ≠ none) ∨
      (∀ asked, inv asked → holder asked second.ordinal ≠ none) →
        Ensures t inv (fun _ _ => False) (first.guarding (second.guarding operation)).run
          system := by
    rintro first second (hfirst | hsecond)
    · exact ensures_locking_held hfirst
    · intro asked answer locked _ _ _ _
      have hstuck : Ensures t inv (fun _ _ => False) (second.locking operation.run) locked :=
        ensures_locking_held hsecond
      exact hstuck.andThen fun _ _ => False.elim
  unfold Event.guardingBoth
  split
  · exact hboth hheld
  · exact hboth hheld.symm

namespace Machine

variable {s s' x : Machine} {call : Call} {h h' : History} {l : Happening} {q : QueueRef}

/-! ## Calls that workers accompany -/

/-- A request that leaves everything as it was leaves the queues as they were. -/
theorem Step.world_of_undisturbed {request : Request} (hstep : Step s (.ask t request) s')
    (hsame : Undisturbed s.system s'.system) : s'.world = s.world := by
  cases hstep with
  | ask htask hserve =>
    cases serves_of_serve hserve with
    | @engine request reply hreply =>
      rcases World.state_of_serve hreply with hstate | ⟨q, marker, -, hstate⟩
      · exact hstate
      · refine hstate.trans ?_
        obtain ⟨command, rfl, hsubmit⟩ : ∃ command : Command, command.queue = q ∧
            (s.system.engine.enqueueMarker q marker).state = (s.world.submit command).state :=
          ⟨_, rfl, rfl⟩
        rw [hsubmit] at hstate ⊢
        cases htakes : s.world.takes command.queue with
        | false =>
          rw [World.state_of_not_takes htakes]
        | true =>
          -- the queue's line would have become longer
          have haccepted : reply.state.accepted command.queue =
              s.world.accepted command.queue := hsame.accepted command.queue
          rw [hstate, World.accepted_submit_self htakes] at haccepted
          simp at haccepted
    | _ => rfl

/-- The steps of workers are made alike in every machine that has the same queues. -/
theorem Run.workers (hrun : Run s h s') (hworld : x.world = s.world)
    (hkept : ∀ before l after y z, h = before ++ l :: after → Run s before y → Step y l z →
      l.thread? ≠ none → z.world = y.world) :
    Run x (h.filter fun l => l.thread?.isNone) (x.withWorld s'.world) := by
  induction hrun with
  | refl =>
    rw [← hworld]
    exact .refl
  | @snoc h l y z hrun hstep ih =>
    have hbefore := ih fun before m after y' z' hsplit =>
      hkept before m (after ++ [l]) y' z' (by rw [hsplit, List.append_assoc]; rfl)
    rw [List.filter_append]
    cases hthread : l.thread? with
    | some u =>
      have hlast := hkept h l [] y z rfl hrun hstep (by simp [hthread])
      rw [hlast]
      simpa [hthread] using hbefore
    | none =>
      cases hstep with
      | enter | ask => cases hthread
      | @worker q w hstep => exact hbefore.snoc (Step.worker hstep)

/-- A call goes on after steps of workers. -/
theorem Performs.after_workers {value : call.Result} (hrun : Run s h s')
    (hworkers : ∀ l ∈ h, l.thread? = none) (hbusy : s.Busy t call)
    (hperforms : Performs t call s' h' value x) : Performs t call s (h ++ h') value x := by
  induction h generalizing s with
  | nil =>
    rw [hrun.eq_of_nil] at hperforms
    exact hperforms
  | cons l h ih =>
    obtain ⟨y, hfirst, hrest⟩ := hrun.uncons
    have hbusy' : y.Busy t call := by
      cases hfirst with
      | worker => exact hbusy
      | enter | ask => cases hworkers _ List.mem_cons_self
    exact .step hbusy hfirst (ih hrest (fun m hm => hworkers m (List.mem_cons_of_mem l hm)) hbusy')

/-- A call goes on by asking. -/
theorem Performs.ask_of_own {value : call.Result} (hperforms : Performs t call s h value s')
    (hl : l ∈ h) (hmine : l.thread? = some t) : ∃ request, l = .ask t request := by
  induction hperforms with
  | done => cases hl
  | step hbusy hstep _ ih =>
    rcases List.mem_cons.1 hl with rfl | hl
    · obtain ⟨task, htask, -, request, next, hrest⟩ := hbusy
      exact ⟨request, eq_ask_of_step hstep hmine (by rw [htask, ← hrest])⟩
    · exact ih hl

/-- A lock stays held while its holder stands still. -/
theorem Run.holder {o : Nat} (hrun : Run s h s') (hsound : s.Sound)
    (hothers : ∀ l ∈ h, l.thread? ≠ some t) (hheld : Host.holder s.system o = some t) :
    Host.holder s'.system o = some t := by
  induction hrun with
  | refl => exact hheld
  | @snoc h l y z hrun hstep ih =>
    have hbefore := ih fun m hm => hothers m (List.mem_append_left _ hm)
    have hother := hothers l (by simp)
    have hmeanwhile := ((hsound.of_run hrun).meanwhile hstep hother).2
    exact @Meanwhile.holder t _ _ hmeanwhile ⟨o, .empty⟩ hbefore

/-- Two events were free when they were measured, if no other thread made a step meanwhile. -/
theorem free_of_returns {result : Except Failure Single} (hs : s.Reachable)
    (hne : a.ordinal ≠ b.ordinal) (hreturns : Returns t (.elapsedTime a b) s h result s')
    (halone : ∀ l ∈ h, ∀ u ∈ l.thread?, u = t) :
    Host.holder s.system a.ordinal = none ∧ Host.holder s.system b.ordinal = none := by
  have hsound := sound_of_reachable hs
  have hkept : ∀ o v, Host.holder s.system o = some v → ∀ system,
      (∃ x, During s h x ∧ x.system = system) → Host.holder system o ≠ none := by
    rintro o v hheld _ ⟨x, ⟨before, after, rfl, hbefore⟩, rfl⟩
    have hv : v ≠ t := by
      rintro rfl
      obtain ⟨held, hholds, hconduct⟩ := hsound.conduct v
      have hnone := hconduct.eq_nil hreturns.allows.1
      have hmem := (hholds o).2 hheld
      rw [hnone] at hmem
      cases hmem
    rw [hbefore.holder hsound ?_ hheld]
    · exact Option.some_ne_none v
    · intro l hl hthread
      exact hv (halone l (List.mem_append_left _ hl) v hthread)
  have hstuck : ∀ {inv : System World → Prop}, (∀ asked, inv asked →
      Host.holder asked a.ordinal ≠ none) ∨ (∀ asked, inv asked →
        Host.holder asked b.ordinal ≠ none) →
          Ensures t inv (fun _ _ => False) (a.elapsedTime b).run s.system := by
    intro inv hheld
    refine ensures_bind (fun _ _ => False) ?_ (fun _ _ => id) (fun _ _ => False.elim)
    rw [Event.elapsedNanos, if_neg hne]
    exact ensures_guardingBoth_held hheld
  constructor
  · by_contra hheld
    obtain ⟨v, hv⟩ := Option.ne_none_iff_exists'.1 hheld
    exact hreturns.ensures_during hsound (hstuck (.inl (hkept _ v hv)))
  · by_contra hheld
    obtain ⟨v, hv⟩ := Option.ne_none_iff_exists'.1 hheld
    exact hreturns.ensures_during hsound (hstuck (.inr (hkept _ v hv)))

end Machine

end SyncPoint.Host
