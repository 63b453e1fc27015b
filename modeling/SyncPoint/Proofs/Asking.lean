import SyncPoint.Proofs.Along
import SyncPoint.Proofs.Machine.Measuring

/-!
# What queries and measurements ask for

When a query or a measurement asks what, over any engine: the conditions on each request are stated
by what the operation was answered before (`Asked`), and what it reports as not ready by all that it
was answered (`Ended`).  They hold along all answers, so they hold of every run, finished or not,
alone or among other threads.
-/

namespace SyncPoint

open Host (Exchange)

variable {σ α : Type}

/-! ## Looking at a command -/

/-- A look at a command, and if it is pending a nudge and a second look: what was asked, and whether
the command was found complete. -/
inductive Polls (c : CommandRef) : List Answered → Bool → Prop
  | complete : Polls c [⟨.status c, .complete⟩] true
  | nudged (progress : Bool) (status : Status) :
      Polls c [⟨.status c, .pending⟩, ⟨.tryAdvance c, progress⟩, ⟨.status c, status⟩]
        (decide (status = .complete))

/-- A command was looked at after a nudge and was pending still, whatever came of the nudge. -/
inductive StillPending : List Answered → Prop
  | here (c : CommandRef) (progress : Bool) (rest : List Answered) :
      StillPending (⟨.tryAdvance c, progress⟩ :: ⟨.status c, .pending⟩ :: rest)
  | later (x : Answered) {rest : List Answered} (h : StillPending rest) : StillPending (x :: rest)

/-- The engine refused a marker, and reported that as something that is not ready. -/
def RefusedUnready (asked : List Answered) : Prop :=
  ∃ q request failure, (⟨.enqueueMarker q request, .error failure⟩ : Answered) ∈ asked ∧
    failure.kind = .notReady

/-- The operation reports that something is not ready. -/
def NotReady (result : Except Failure α) : Prop :=
  ∃ failure, result = .error failure ∧ failure.kind = .notReady

@[simp] theorem notReady_error {failure : Failure} :
    NotReady (.error failure : Except Failure α) ↔ failure.kind = .notReady := by
  constructor
  · rintro ⟨_, ⟨⟩, hkind⟩
    exact hkind
  · exact fun hkind => ⟨failure, rfl, hkind⟩

@[simp] theorem notReady_ok {value : α} : ¬ NotReady (.ok value : Except Failure α) := by
  rintro ⟨_, ⟨⟩, -⟩

/-- Nobody nudges. -/
def Unhurried (asked : List Answered) : Prop :=
  ∀ x ∈ asked, ∀ c, x.request ≠ .tryAdvance c

section Polls

variable {c : CommandRef} {asked more polls : List Answered}

theorem StillPending.append (h : StillPending more) (asked : List Answered) :
    StillPending (asked ++ more) := by
  induction asked with
  | nil => exact h
  | cons x asked ih => exact .later x ih

theorem not_stillPending (h : Unhurried asked) : ¬ StillPending asked := by
  intro hpending
  induction hpending with
  | here c progress rest => exact h _ List.mem_cons_self c rfl
  | later x _ ih => exact ih fun y hy => h y (List.mem_cons_of_mem _ hy)

theorem stillPending_of_polls (h : Polls c polls false) : StillPending polls := by
  generalize hready : false = ready at h
  cases h with
  | complete => cases hready
  | nudged progress status =>
    cases status with
    | complete => cases hready
    | pending => exact .later _ (.here c progress [])

/-- What was found complete is not pending. -/
theorem stillPending_polls_append (h : Polls c polls true) :
    StillPending (polls ++ more) ↔ StillPending more := by
  refine ⟨fun hpending => ?_, fun hpending => hpending.append polls⟩
  generalize hready : true = ready at h
  cases h with
  | complete =>
    cases hpending with
    | later _ hpending => exact hpending
  | nudged progress status =>
    have hcomplete : status = .complete := of_decide_eq_true hready.symm
    subst hcomplete
    cases hpending with
    | later _ hpending =>
      cases hpending with
      | later _ hpending =>
        cases hpending with
        | later _ hpending => exact hpending

theorem stillPending_polls_iff {ready : Bool} (h : Polls c polls ready) :
    StillPending polls ↔ ready = false := by
  cases ready with
  | false => exact iff_of_true (stillPending_of_polls h) rfl
  | true =>
    have hnothing : ¬ StillPending [] := nofun
    rw [← stillPending_polls_append h, List.append_nil] at hnothing
    exact iff_of_false hnothing nofun

theorem not_refusedUnready_of_polls {ready : Bool} (h : Polls c polls ready) :
    ¬ RefusedUnready polls := by
  rintro ⟨q, request, failure, hmem, -⟩
  cases h <;> simp at hmem

theorem refusedUnready_append :
    RefusedUnready (asked ++ more) ↔ RefusedUnready asked ∨ RefusedUnready more := by
  constructor
  · rintro ⟨q, request, failure, hmem, hkind⟩
    rcases List.mem_append.1 hmem with hmem | hmem
    · exact .inl ⟨q, request, failure, hmem, hkind⟩
    · exact .inr ⟨q, request, failure, hmem, hkind⟩
  · rintro (⟨q, request, failure, hmem, hkind⟩ | ⟨q, request, failure, hmem, hkind⟩)
    · exact ⟨q, request, failure, List.mem_append_left _ hmem, hkind⟩
    · exact ⟨q, request, failure, List.mem_append_right _ hmem, hkind⟩

end Polls

/-! ## The conditions -/

/-- These events were read, each once, and found bound. -/
structure FoundBound (events : List Event) (read : List (Event × Binding)) : Prop where
  events : read.map (·.1) = events
  bound : ∀ x ∈ read, x.2 ≠ .unbound

/-- Asks the engine for something that it does, as opposed to reports. -/
def EngineRequest.Acts : EngineRequest → Prop
  | .tryAdvance _ | .await _ | .enqueueMarker .. => True
  | _ => False

/-- Each request is asked in its place: bindings are read before the engine is asked anything, the
engine is asked only if all events were found bound, commands are nudged as `nudges` says, and a
marker is enqueued as `fresh` says and then waited for. -/
inductive Asked (events : List Event)
    (nudges : List (Event × Binding) → List Answered → CommandRef → Prop)
    (fresh : List (Event × Binding) → List Answered → QueueRef → MarkerRequest CommandRef → Prop)
    (xs : List Exchange) : Request → Prop
  | apart {request : Request} (h : request.Apart) : Asked events nudges fresh xs request
  | read {event : Event} {read : List (Event × Binding)} (hmet : Met xs read []) :
      Asked events nudges fresh xs (.binding event)
  | look {request : EngineRequest} {read : List (Event × Binding)} {asked : List Answered}
      (hmet : Met xs read asked) (hbound : FoundBound events read) (hlook : ¬ request.Acts) :
      Asked events nudges fresh xs (.engine request)
  | nudge {c : CommandRef} {read : List (Event × Binding)} {asked : List Answered}
      (hmet : Met xs read asked) (hbound : FoundBound events read) (h : nudges read asked c) :
      Asked events nudges fresh xs (.engine (.tryAdvance c))
  | marker {q : QueueRef} {request : MarkerRequest CommandRef} {read : List (Event × Binding)}
      {asked : List Answered} (hmet : Met xs read asked) (hbound : FoundBound events read)
      (h : fresh read asked q request) :
      Asked events nudges fresh xs (.engine (.enqueueMarker q request))
  | await {m : CommandRef} {q : QueueRef} {request : MarkerRequest CommandRef}
      {read : List (Event × Binding)} {asked : List Answered}
      (hmet : Met xs read (asked ++ [⟨.enqueueMarker q request, .ok m⟩]))
      (hbound : FoundBound events read) (h : fresh read asked q request) :
      Asked events nudges fresh xs (.engine (.await m))

/-- Something is reported not ready if a command was pending still after its nudge, or if the engine
itself reports that of a marker. -/
def Ended (xs : List Exchange) (result : Except Failure α) : Prop :=
  ∃ read asked, Met xs read asked ∧
    (NotReady result ↔ StillPending asked ∨ RefusedUnready asked)

section Ended

variable {β : Type} {xs : List Exchange}

theorem Ended.error {failure : Failure} (h : Ended xs (.error failure : Except Failure α)) :
    Ended xs (.error failure : Except Failure β) := by
  obtain ⟨read, asked, hmet, hiff⟩ := h
  exact ⟨read, asked, hmet, by rw [notReady_error] at hiff ⊢; exact hiff⟩

theorem Ended.ok {value : α} {value' : β} (h : Ended xs (.ok value : Except Failure α)) :
    Ended xs (.ok value' : Except Failure β) := by
  obtain ⟨read, asked, hmet, hiff⟩ := h
  exact ⟨read, asked, hmet, (iff_false_left notReady_ok).2 ((iff_false_left notReady_ok).1 hiff)⟩

end Ended

section Conditions

variable {events : List Event} {nudges : List (Event × Binding) → List Answered → CommandRef → Prop}
  {fresh : List (Event × Binding) → List Answered → QueueRef → MarkerRequest CommandRef → Prop}
  {xs : List Exchange} {read : List (Event × Binding)} {asked : List Answered} {c : CommandRef}

theorem along_isReady (hmet : Met xs read asked) (hbound : FoundBound events read)
    (hnudge : nudges read (asked ++ [⟨.status c, .pending⟩]) c) :
    Along (Asked events nudges fresh)
      (fun ys ready => ∃ polls, Polls c polls ready ∧ Met ys read (asked ++ polls)) (isReady c)
      xs := by
  refine ⟨.look hmet hbound id, fun status => ?_⟩
  have hseen := hmet.engine (.status c) status
  cases status with
  | complete => exact ⟨_, .complete, hseen⟩
  | pending =>
    refine ⟨.nudge hseen hbound hnudge, fun progress => ?_⟩
    have hnudged := hseen.engine (.tryAdvance c) progress
    refine ⟨.look hnudged hbound id, fun status => ⟨_, .nudged progress status, ?_⟩⟩
    have hseen' := hnudged.engine (.status c) status
    simpa using hseen'

end Conditions

/-! ## Measuring -/

/-- When a measurement of two events nudges: for the first event if its position was just seen
pending and nothing was asked before, for the second if its position was and the first was found
ready. -/
inductive MeasurementNudges (start stop : Event) :
    List (Event × Binding) → List Answered → CommandRef → Prop
  | start {p r : CommandRef} {first second : Bool} :
      MeasurementNudges start stop [(start, .bound p first), (stop, .bound r second)]
        [⟨.status p, .pending⟩] p
  | stop {p r : CommandRef} {first second : Bool} {polls : List Answered}
      (hready : Polls p polls true) :
      MeasurementNudges start stop [(start, .bound p first), (stop, .bound r second)]
        (polls ++ [⟨.status r, .pending⟩]) r

/-- When a measurement of two events enqueues a marker, and which: timing is enabled for both, both
are at one position that was found complete for each of them, one of them is recorded, the
position's timestamps were read, and the marker goes to the queue that owns the position. -/
inductive MeasurementMarks (start stop : Event) :
    List (Event × Binding) → List Answered → QueueRef → MarkerRequest CommandRef → Prop
  | behind {p : CommandRef} {q : QueueRef} {first second profiling : Bool}
      {polls polls' : List Answered} {times : Timestamps} {id : QueueId}
      (henabled : (start.flags.timingDisabled || stop.flags.timingDisabled) = false)
      (hrecorded : first = true ∨ second = true) (hready : Polls p polls true)
      (hready' : Polls p polls' true) :
      MeasurementMarks start stop [(start, .bound p first), (stop, .bound p second)]
        (polls ++ (polls' ++ [⟨.timestamps p, some times⟩, ⟨.owner p, some q⟩, ⟨.queueId q, id⟩,
          ⟨.profiling q, profiling⟩])) q ⟨.forProfiling profiling, []⟩

section Measuring

variable {start stop : Event} {xs : List Exchange} {p r : CommandRef} {first second : Bool}
  {polls polls' more : List Answered}
  {events : List Event} {nudges : List (Event × Binding) → List Answered → CommandRef → Prop}
  {fresh : List (Event × Binding) → List Answered → QueueRef → MarkerRequest CommandRef → Prop}

/-- Once both positions were found complete, only a marker that is refused can be reported as not
ready. -/
theorem ended_of_ready {read : List (Event × Binding)} {result : Except Failure α}
    (hready : Polls p polls true) (hready' : Polls r polls' true)
    (hmet : Met xs read (polls ++ (polls' ++ more))) (hunhurried : Unhurried more)
    (hrefused : NotReady result ↔ RefusedUnready more) : Ended xs result := by
  refine ⟨read, _, hmet, ?_⟩
  rw [stillPending_polls_append hready, stillPending_polls_append hready', refusedUnready_append,
    refusedUnready_append, hrefused]
  constructor
  · exact fun h => .inr (.inr (.inr h))
  · rintro (h | h | h | h)
    · exact absurd h (not_stillPending hunhurried)
    · exact absurd h (not_refusedUnready_of_polls hready)
    · exact absurd h (not_refusedUnready_of_polls hready')
    · exact h

theorem Met.behind {read : List (Event × Binding)} (h : Met xs read (polls ++ (polls' ++ more)))
    (request : EngineRequest) (answer : request.Answer) :
    Met (xs ++ [⟨.engine request, answer⟩]) read
      (polls ++ (polls' ++ (more ++ [⟨request, answer⟩]))) := by
  have hnext := h.engine request answer
  rwa [List.append_assoc, List.append_assoc] at hnext

theorem foundBound_pair :
    FoundBound [start, stop] [(start, .bound p first), (stop, .bound r second)] :=
  ⟨rfl, by simp⟩

/-- Nothing was asked that can be reported as not ready. -/
def Harmless (asked : List Answered) : Prop := Unhurried asked ∧ ¬ RefusedUnready asked

theorem along_bind_timestampsOf {read : List (Event × Binding)} {c : CommandRef}
    {next : Timestamps → Operation α} (hbound : FoundBound events read)
    (hready : Polls p polls true) (hready' : Polls r polls' true)
    (hmet : Met xs read (polls ++ (polls' ++ more)))
    (hmore : Harmless more)
    (hnext : ∀ ys times,
      Met ys read (polls ++ (polls' ++ (more ++ [⟨.timestamps c, some times⟩]))) →
      Along (Asked events nudges fresh) Ended (next times).run ys) :
    Along (Asked events nudges fresh) Ended (timestampsOf c >>= next).run xs := by
  refine ⟨.look hmet hbound id, fun times => ?_⟩
  have htold := hmet.behind (.timestamps c) times
  cases times with
  | none =>
    refine ended_of_ready hready hready' htold ?_ (iff_of_false ?_ ?_)
    · intro x hx
      rcases List.mem_append.1 hx with hx | hx
      · exact hmore.1 x hx
      · rw [List.mem_singleton.1 hx]
        nofun
    · simp [Failure.kind]
    · rw [refusedUnready_append]
      rintro (h | h)
      · exact hmore.2 h
      · simp [RefusedUnready] at h
  | some times => exact hnext _ times htold

theorem along_freshMarkerEnd {times : Timestamps}
    (henabled : (start.flags.timingDisabled || stop.flags.timingDisabled) = false)
    (hrecorded : first = true ∨ second = true) (hready : Polls p polls true)
    (hready' : Polls p polls' true)
    (hmet : Met xs [(start, .bound p first), (stop, .bound p second)]
      (polls ++ (polls' ++ [⟨.timestamps p, some times⟩]))) :
    Along (Asked [start, stop] (MeasurementNudges start stop) (MeasurementMarks start stop)) Ended
      (start.freshMarkerEnd p).run xs := by
  refine ⟨.look hmet foundBound_pair id, fun owner => ?_⟩
  have howner := hmet.behind (.owner p) owner
  cases owner with
  | none =>
    exact ended_of_ready hready hready' howner (by simp [Unhurried])
      (by simp [RefusedUnready, Failure.kind])
  | some q =>
    refine ⟨.look howner foundBound_pair id, fun id' => ?_⟩
    have hid := howner.behind (.queueId q) id'
    refine ⟨.apart trivial, fun _ => ?_⟩
    have hlogged := hid.apart (.log (.freshMarker start.ordinal id')) trivial ()
    refine ⟨.look hlogged foundBound_pair id, fun profiling => ?_⟩
    have hprofiling := hlogged.behind (.profiling q) profiling
    have hmarks : MeasurementMarks start stop _ (polls ++ (polls' ++ [⟨.timestamps p, some times⟩,
        ⟨.owner p, some q⟩, ⟨.queueId q, id'⟩, ⟨.profiling q, profiling⟩])) q
        ⟨.forProfiling profiling, []⟩ := .behind henabled hrecorded hready hready'
    refine ⟨.marker hprofiling foundBound_pair hmarks, fun answer => ?_⟩
    have hanswered := hprofiling.behind (.enqueueMarker q ⟨.forProfiling profiling, []⟩) answer
    cases answer with
    | error failure =>
      refine ended_of_ready hready hready' hanswered (by simp [Unhurried]) ⟨?_, ?_⟩
      · intro hkind
        exact ⟨q, ⟨.forProfiling profiling, []⟩, failure, by simp, notReady_error.1 hkind⟩
      · rintro ⟨q', request, failure', hmem, hkind⟩
        obtain ⟨-, rfl⟩ : (q' = q ∧ request = ⟨.forProfiling profiling, []⟩) ∧
            failure' = failure := by simpa using hmem
        exact notReady_error.2 hkind
    | ok m =>
      have htaken := hprofiling.engine (.enqueueMarker q ⟨.forProfiling profiling, []⟩) (.ok m)
      refine ⟨.await htaken foundBound_pair hmarks, fun _ => ?_⟩
      have hawaited := hanswered.behind (.await m) ()
      refine along_bind_timestampsOf foundBound_pair hready hready' hawaited
        ⟨by simp [Unhurried], by simp [RefusedUnready]⟩ fun ys times' htold => ?_
      exact ended_of_ready hready hready' htold (by simp [Unhurried])
        (by simp [RefusedUnready])

theorem along_nanosBetween
    (henabled : (start.flags.timingDisabled || stop.flags.timingDisabled) = false)
    (hready : Polls p polls true) (hready' : Polls r polls' true)
    (hmet : Met xs [(start, .bound p first), (stop, .bound r second)] (polls ++ (polls' ++ []))) :
    Along (Asked [start, stop] (MeasurementNudges start stop) (MeasurementMarks start stop)) Ended
      (start.nanosBetween first second p r).run xs := by
  refine along_bind_timestampsOf foundBound_pair hready hready' hmet
    ⟨by simp [Unhurried], by simp [RefusedUnready]⟩ fun ys times htold => ?_
  -- the second reading ends the measurement, unless it is against a fresh marker
  have hstop : ∀ nanos : Timestamps → Int, Along
      (Asked [start, stop] (MeasurementNudges start stop) (MeasurementMarks start stop)) Ended
      (timestampsOf r >>= fun stopTimes => pure (nanos stopTimes) : Operation Int).run ys := by
    intro nanos
    refine along_bind_timestampsOf foundBound_pair hready hready' htold
      ⟨by simp [Unhurried], by simp [RefusedUnready]⟩ fun zs times' htold' => ?_
    exact ended_of_ready hready hready' htold' (by simp [Unhurried])
      (by simp [RefusedUnready])
  split
  · exact hstop _
  · split
    next hshared =>
      obtain ⟨rfl, hrecorded⟩ := hshared
      refine along_bind _ (along_freshMarkerEnd henabled hrecorded hready hready' htold) ?_ ?_
      · exact fun _ _ hended => hended.error
      · exact fun _ _ hended => hended.ok
    · exact hstop _

/-- Where nothing was asked, nothing is reported as not ready. -/
theorem ended_of_unasked {read : List (Event × Binding)} {result : Except Failure α}
    (hmet : Met xs read []) (hresult : ¬ NotReady result) : Ended xs result := by
  refine ⟨read, [], hmet, iff_of_false hresult ?_⟩
  rintro (hpending | ⟨_, _, _, hmem, -⟩)
  · cases hpending
  · cases hmem

/-- What is still pending is reported as not ready. -/
theorem ended_of_pending {read : List (Event × Binding)} {asked : List Answered}
    (hmet : Met xs read asked) (hpending : StillPending asked) :
    Ended xs (.error .pending : Except Failure α) :=
  ⟨read, asked, hmet, iff_of_true (notReady_error.2 rfl) (.inl hpending)⟩

theorem along_guarding {event : Event} {operation : Operation α} (hmet : Met xs [] [])
    (hbody : ∀ ys, Met ys [] [] → Along (Asked events nudges fresh) Ended operation.run ys) :
    Along (Asked events nudges fresh) Ended (event.guarding operation).run xs := by
  refine along_locking (.apart trivial) (fun _ => .apart trivial) ?_ ?_
  · rintro ys result ⟨read, asked, hmet, hiff⟩
    exact ⟨read, asked, hmet.apart (.unlock event) trivial (), hiff⟩
  · exact hbody _ (hmet.apart (.lock event) trivial ())

theorem along_nanosHeld (hmet : Met xs [] []) :
    Along (Asked [start, stop] (MeasurementNudges start stop) (MeasurementMarks start stop)) Ended
      (Host.Event.nanosHeld start stop).run xs := by
  refine along_bind_request (.read hmet) fun startBinding => ?_
  have hstart := hmet.binding start startBinding
  refine along_bind_request (.read hstart) fun stopBinding => ?_
  have hboth := hstart.binding stop stopBinding
  cases startBinding with
  | unbound => exact ended_of_unasked hboth (by simp [Failure.kind])
  | bound p first =>
    cases stopBinding with
    | unbound => exact ended_of_unasked hboth (by simp [Failure.kind])
    | bound r second =>
      show Along _ _ (ExceptT.run (if _ then _ else _)) _
      split
      next => exact ended_of_unasked hboth (by simp [Failure.kind])
      next henabled =>
        have henabled := Bool.eq_false_iff.2 henabled
        refine along_bind_lift _ (along_isReady hboth foundBound_pair .start) ?_
        rintro ys ready ⟨polls, hpolls, hlooked⟩
        split
        next hpending =>
          obtain rfl : ready = false := by simpa using hpending
          exact ended_of_pending hlooked (stillPending_of_polls hpolls)
        next hready =>
          obtain rfl : ready = true := by simpa using hready
          refine along_bind_lift _ (along_isReady hlooked foundBound_pair (.stop hpolls)) ?_
          rintro zs ready ⟨polls', hpolls', hlooked'⟩
          split
          next hpending =>
            obtain rfl : ready = false := by simpa using hpending
            exact ended_of_pending hlooked' ((stillPending_of_polls hpolls').append _)
          next hready =>
            obtain rfl : ready = true := by simpa using hready
            refine along_nanosBetween henabled hpolls hpolls' ?_
            rwa [List.append_nil]

theorem along_nanosToOther :
    Along (Asked [start, stop] (MeasurementNudges start stop) (MeasurementMarks start stop)) Ended
      (Event.nanosToOther start stop).run [] := by
  rw [Host.Event.nanosToOther_eq, Event.guardingBoth]
  split
  · refine along_guarding met_nil fun ys hmet => ?_
    exact along_guarding hmet fun zs hmet' => along_nanosHeld hmet'
  · refine along_guarding met_nil fun ys hmet => ?_
    exact along_guarding hmet fun zs hmet' => along_nanosHeld hmet'

/-- When an event's own position is nudged: it was just seen pending, and nothing was asked
before. -/
def SoleNudge (event : Event) (read : List (Event × Binding)) (asked : List Answered)
    (c : CommandRef) : Prop :=
  ∃ recorded, read = [(event, .bound c recorded)] ∧ asked = [⟨.status c, .pending⟩]

/-- No marker is enqueued. -/
def NoMarks (_ : List (Event × Binding)) (_ : List Answered) (_ : QueueRef)
    (_ : MarkerRequest CommandRef) : Prop := False

variable {event : Event} {recorded : Bool}

theorem foundBound_singleton : FoundBound [event] [(event, .bound p recorded)] :=
  ⟨rfl, by simp⟩

theorem along_isReady_sole (hmet : Met xs [(event, .bound p recorded)] []) :
    Along (Asked [event] (SoleNudge event) NoMarks) (fun ys ready => ∃ polls, Polls p polls ready ∧
      Met ys [(event, .bound p recorded)] polls) (isReady p) xs :=
  along_isReady hmet foundBound_singleton ⟨recorded, rfl, rfl⟩

theorem along_nanosToSelf :
    Along (Asked [event] (SoleNudge event) NoMarks) Ended event.nanosToSelf.run [] := by
  refine along_guarding met_nil fun ys hmet => ?_
  refine along_bind_request (.read hmet) fun binding => ?_
  have hread := hmet.binding event binding
  cases binding with
  | unbound => exact ended_of_unasked hread (by simp [Failure.kind])
  | bound p recorded =>
    show Along _ _ (ExceptT.run (if _ then _ else _)) _
    split
    next => exact ended_of_unasked hread (by simp [Failure.kind])
    next =>
      refine along_bind_lift _ (along_isReady_sole hread) ?_
      rintro zs ready ⟨polls, hpolls, hlooked⟩
      split
      next hpending =>
        obtain rfl : ready = false := by simpa using hpending
        exact ended_of_pending hlooked (stillPending_of_polls hpolls)
      next hready =>
        obtain rfl : ready = true := by simpa using hready
        refine ⟨_, _, hlooked, iff_of_false notReady_ok ?_⟩
        rintro (h | h)
        · cases (stillPending_polls_iff hpolls).1 h
        · exact not_refusedUnready_of_polls hpolls h

/-- A query says that something is not ready exactly if it is still pending. -/
theorem along_query :
    Along (Asked [event] (SoleNudge event) NoMarks)
      (fun xs status => ∃ read asked, Met xs read asked ∧
        (status = .notReady ↔ StillPending asked)) event.query [] := by
  refine along_locking (.apart trivial) (fun _ => .apart trivial) ?_ ?_
  · rintro ys status ⟨read, asked, hmet, hiff⟩
    exact ⟨read, asked, hmet.apart (.unlock event) trivial (), hiff⟩
  have hmet := met_nil.apart (.lock event) trivial ()
  refine ⟨.read hmet, fun binding => ?_⟩
  have hread := hmet.binding event binding
  cases binding with
  | unbound => exact ⟨_, _, hread, iff_of_false nofun nofun⟩
  | bound p recorded =>
    show Along _ _ ((isReady p).andThen _) _
    refine (along_isReady_sole hread).andThen ?_
    rintro zs ready ⟨polls, hpolls, hlooked⟩
    refine ⟨_, polls, hlooked, ?_⟩
    rw [stillPending_polls_iff hpolls]
    cases ready <;> simp

theorem along_elapsedTime_self (hsame : start.ordinal = stop.ordinal) :
    Along (Asked [start] (SoleNudge start) NoMarks) Ended (start.elapsedTime stop).run [] := by
  have hnanos : Along (Asked [start] (SoleNudge start) NoMarks) Ended
      (start.elapsedNanos stop).run [] := by
    rw [Event.elapsedNanos, if_pos hsame]
    exact along_nanosToSelf
  exact along_bind _ hnanos (fun _ _ hended => hended.error) fun _ _ hended => hended.ok

theorem along_elapsedTime_other (hne : start.ordinal ≠ stop.ordinal) :
    Along (Asked [start, stop] (MeasurementNudges start stop) (MeasurementMarks start stop)) Ended
      (start.elapsedTime stop).run [] := by
  have hnanos : Along
      (Asked [start, stop] (MeasurementNudges start stop) (MeasurementMarks start stop)) Ended
      (start.elapsedNanos stop).run [] := by
    rw [Event.elapsedNanos, if_neg hne]
    exact along_nanosToOther
  exact along_bind _ hnanos (fun _ _ hended => hended.error) fun _ _ hended => hended.ok

end Measuring

end SyncPoint
