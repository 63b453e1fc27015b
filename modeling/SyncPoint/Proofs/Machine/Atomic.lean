import SyncPoint.Proofs.Machine.Bindings
import SyncPoint.Proofs.Machine.Measuring

/-!
# Operations that change nothing and fail, or change something and succeed

Some answers come with a change to an event's binding, to a table, or to what a queue has accepted
(`Request.Alters`); all others leave these alone (`Serves.undisturbed`).  An operation is `Atomic` if
it does not fail any more once it got an answer of the first kind.

For most operations this can be read off the program.  The exception is the measurement against a
fresh marker, which enqueues the marker first and asks for its timestamps later: a position that has
timestamps was timed, so its queue profiles, so the marker is timed as well and has timestamps when
it has run.
-/

namespace SyncPoint

/-- The answer to the request comes with a change to a binding, a table, or a queue's commands. -/
def Request.Alters : (request : Request) → request.Answer → Prop
  | .engine (.enqueueMarker ..), answer => ∃ c, answer = .ok c
  | .bind .., _ => True
  | .register .., answer => answer.isSome = true
  | .unregister .., answer => answer = true
  | _, _ => False

/-- The failure with which an operation ended, if it did. -/
def failureOf? {α : Type} : Except Failure α → Option Failure
  | .error failure => some failure
  | .ok _ => none

namespace Host

/-- Events are bound as before, tables are as before, and queues have accepted what they had. -/
structure Undisturbed (a b : System World) : Prop where
  binding : ∀ event, b.binding event = a.binding event
  tables : b.tables = a.tables
  accepted : ∀ q, b.engine.accepted q = a.engine.accepted q
  last : ∀ q, (b.engine.queue q).last = (a.engine.queue q).last

theorem Undisturbed.refl (a : System World) : Undisturbed a a :=
  ⟨fun _ => rfl, rfl, fun _ => rfl, fun _ => rfl⟩

theorem Undisturbed.trans {a b c : System World} (h : Undisturbed a b) (h' : Undisturbed b c) :
    Undisturbed a c :=
  ⟨fun event => (h'.binding event).trans (h.binding event), h'.tables.trans h.tables,
    fun q => (h'.accepted q).trans (h.accepted q), fun q => (h'.last q).trans (h.last q)⟩

variable {α β : Type} {t : ThreadId} {inv : System World → Prop}

theorem Serves.undisturbed {request : Request} {answer : request.Answer} {a b : System World}
    (h : Serves t a request answer b) (hquiet : ¬ request.Alters answer) : Undisturbed a b := by
  have hbinding : ∀ event, b.binding event = a.binding event := by
    intro event
    refine h.binding_eq ?_
    rintro other binding rfl
    exact absurd trivial hquiet
  have hsame : b.tables = a.tables → b.engine = a.engine → Undisturbed a b := by
    intro htables hengine
    exact ⟨hbinding, htables, fun q => by rw [hengine], fun q => by rw [hengine]⟩
  cases h with
  | @engine request reply hreply =>
    refine hsame rfl ?_
    cases request with
    | enqueueMarker q marker =>
      cases hreply
      cases hvalue : (a.engine.enqueueMarker q marker).value with
      | ok c => exact absurd ⟨c, hvalue⟩ hquiet
      | error failure => exact World.state_of_value_submit hvalue
    | _ =>
      rcases World.state_of_serve hreply with hstate | ⟨q, marker, hmarker, -⟩
      · exact hstate
      · cases hmarker
  | bind => exact absurd trivial hquiet
  | register => exact absurd rfl hquiet
  | unregister => exact absurd rfl hquiet
  | newEvent | lock | unlock | binding | peek | full | unknown | find | size | log =>
    exact hsame rfl rfl

/-! ## Programs -/

/-- Nothing that the program may be answered comes with a change. -/
def Quiet : Program α → Prop
  | .done _ => True
  | .ask request next => ∀ answer, ¬ request.Alters answer ∧ Quiet (next answer)

/-- Once the program got an answer that came with a change, it does not fail. -/
def Atomic (t : ThreadId) (inv : System World → Prop) (failed? : α → Option Failure) :
    Program α → System World → Prop
  | .done _, _ => True
  | .ask request next, system => ∀ asked answer system', Meanwhile t system asked → inv asked →
      Serves t asked request answer system' → Later asked system' →
        Atomic t inv failed? (next answer) system' ∧
          (request.Alters answer →
            Ensures t inv (fun _ value => failed? value = none) (next answer) system')

theorem Atomic.meanwhile {failed? : α → Option Failure} {request : Request}
    {next : request.Answer → Program α} {a b : System World}
    (h : Atomic t inv failed? (.ask request next) a) (hmeanwhile : Meanwhile t a b) :
    Atomic t inv failed? (.ask request next) b :=
  fun asked answer system' hlater => h asked answer system' (hmeanwhile.trans hlater)

/-- Where the first part has not failed, the second may rely on what the first ensures, and must not
fail. -/
theorem Atomic.andThen {failed? : α → Option Failure} {failed'? : β → Option Failure}
    {mid : System World → α → Prop} {program : Program α} {next : α → Program β}
    {system : System World} (h : Atomic t inv failed? program system)
    (hmid : Ensures t inv mid program system)
    (hnext : ∀ system' value, mid system' value → Atomic t inv failed'? (next value) system')
    (hok : ∀ system' value, mid system' value → failed? value = none →
      Ensures t inv (fun _ result => failed'? result = none) (next value) system') :
    Atomic t inv failed'? (program.andThen next) system := by
  induction program generalizing system with
  | done value => exact hnext system value hmid
  | ask request rest ih =>
    intro asked answer system' hmeanwhile hasked hserves hlater
    have hmid' := hmid asked answer system' hmeanwhile hasked hserves hlater
    obtain ⟨hrest, hsucceeds⟩ := h asked answer system' hmeanwhile hasked hserves hlater
    refine ⟨ih answer hrest hmid', ?_⟩
    intro halters
    refine (hmid'.and (hsucceeds halters)).andThen ?_
    intro system'' value hend
    exact hok system'' value hend.1 hend.2

/-- A first part that changes nothing may end in any way. -/
theorem Quiet.andThen {failed? : β → Option Failure} {mid : System World → α → Prop}
    {program : Program α} {next : α → Program β} {system : System World} (h : Quiet program)
    (hmid : Ensures t inv mid program system)
    (hnext : ∀ system' value, mid system' value → Atomic t inv failed? (next value) system') :
    Atomic t inv failed? (program.andThen next) system := by
  induction program generalizing system with
  | done value => exact hnext system value hmid
  | ask request rest ih =>
    intro asked answer system' hmeanwhile hasked hserves hlater
    obtain ⟨hquiet, hrest⟩ := h answer
    refine ⟨ih answer hrest (hmid asked answer system' hmeanwhile hasked hserves hlater), ?_⟩
    intro halters
    exact absurd halters hquiet

theorem Quiet.atomic {failed? : α → Option Failure} {program : Program α} (h : Quiet program)
    (system : System World) : Atomic t inv failed? program system := by
  rw [← program.andThen_done]
  exact h.andThen (ensures_true program system) fun _ _ _ => trivial

/-- The program does not fail, whatever it is answered. -/
def Succeeds : Program (Except Failure α) → Prop
  | .done result => failureOf? result = none
  | .ask _ next => ∀ answer, Succeeds (next answer)

theorem Succeeds.ensures {program : Program (Except Failure α)} (h : Succeeds program)
    (system : System World) :
    Ensures t inv (fun _ result => failureOf? result = none) program system := by
  induction program generalizing system with
  | done result => exact h
  | ask request next ih =>
    intro asked answer system' _ _ _ _
    exact ih answer (h answer) system'

theorem Succeeds.atomic {program : Program (Except Failure α)} (h : Succeeds program)
    (system : System World) : Atomic t inv failureOf? program system := by
  induction program generalizing system with
  | done result => trivial
  | ask request next ih =>
    intro asked answer system' _ _ _ _
    exact ⟨ih answer (h answer) system', fun _ => (h answer).ensures system'⟩

/-! ## Operations -/

section Operations

variable {operation : Operation β} {next : β → Operation α} {system : System World}

theorem atomic_bind (h : Atomic t inv failureOf? operation.run system)
    (hnext : ∀ value, Succeeds (next value).run) :
    Atomic t inv failureOf? (operation >>= next).run system := by
  refine Atomic.andThen h (ensures_true _ _) ?_ ?_
  · intro system' result _
    cases result with
    | error failure => trivial
    | ok value => exact (hnext value).atomic system'
  · intro system' result _ hresult
    cases result with
    | error failure => cases hresult
    | ok value => exact (hnext value).ensures system'

theorem atomic_bind_quiet (h : Quiet operation.run)
    (hnext : ∀ system' value, Atomic t inv failureOf? (next value).run system') :
    Atomic t inv failureOf? (operation >>= next).run system := by
  refine Quiet.andThen h (ensures_true _ _) ?_
  intro system' result _
  cases result with
  | error failure => trivial
  | ok value => exact hnext system' value

theorem atomic_bind_request {request : Request} {next : request.Answer → Operation α}
    (hquiet : ∀ answer, ¬ request.Alters answer)
    (hnext : ∀ system' answer, Atomic t inv failureOf? (next answer).run system') :
    Atomic t inv failureOf?
      ((liftM (Program.request request) : Operation request.Answer) >>= next).run system := by
  intro asked answer system' _ _ _ _
  exact ⟨hnext system' answer, fun halters => absurd halters (hquiet answer)⟩

theorem Quiet.lift {program : Program α} (h : Quiet program) :
    Quiet (liftM program : Operation α).run := by
  induction program with
  | done value => trivial
  | ask request next ih =>
    intro answer
    exact ⟨(h answer).1, ih answer (h answer).2⟩

theorem atomic_marker (q : QueueRef) (request : MarkerRequest CommandRef) (system : System World) :
    Atomic t inv failureOf?
      (ExceptT.mk (Program.engine (.enqueueMarker q request)) : Operation CommandRef).run
        system := by
  intro asked answer system' _ _ _ _
  refine ⟨trivial, ?_⟩
  rintro ⟨c, rfl⟩
  rfl

theorem atomic_guarding {event : Event} {operation : Operation α}
    (h : ∀ locked, Atomic t inv failureOf? operation.run locked) (system : System World) :
    Atomic t inv failureOf? (event.guarding operation).run system := by
  intro asked answer locked _ _ _ _
  refine ⟨?_, fun halters => absurd halters id⟩
  show Atomic t inv failureOf? (operation.run.andThen _) locked
  refine Atomic.andThen (h locked) (ensures_true _ _) ?_ ?_
  · intro system' result _ asked' answer' system'' _ _ _ _
    exact ⟨trivial, fun halters => absurd halters id⟩
  · intro system' result _ hresult asked' answer' system'' _ _ _ _
    exact hresult

end Operations

theorem quiet_awaitBarrier (barrier : Except Failure CommandRef) : Quiet (awaitBarrier barrier) := by
  cases barrier with
  | error failure => trivial
  | ok c => exact fun _ => ⟨id, trivial⟩

namespace Event

variable {event : Event} {q : QueueRef}

theorem atomic_currentPosition (q : QueueRef) (system : System World) :
    Atomic t inv failureOf? (Event.currentPosition q).run system := by
  refine atomic_bind_request (fun _ => id) ?_
  intro system₁ profiling
  split
  · exact atomic_marker q _ system₁
  · refine atomic_bind_request (fun _ => id) ?_
    intro system₂ last
    split
    next => exact atomic_marker q _ system₂
    next last =>
      refine atomic_bind_request (fun _ => id) ?_
      intro system₃ visible
      split
      · trivial
      · exact atomic_marker q _ system₃

theorem atomic_choosePosition (q : QueueRef) (command : Option CommandRef)
    (system : System World) :
    Atomic t inv failureOf? (Event.choosePosition q command).run system := by
  cases command with
  | none => exact atomic_currentPosition q system
  | some c =>
    refine atomic_bind_request (fun _ => id) ?_
    intro system₁ owner
    refine atomic_bind_request (fun _ => id) ?_
    intro system₂ target
    split <;> trivial

theorem atomic_addMarker (event : Event) (q : QueueRef) (command : Option CommandRef)
    (recorded : Bool) (system : System World) :
    Atomic t inv failureOf? (event.addMarker q command recorded).run system := by
  refine atomic_guarding ?_ system
  intro locked
  refine atomic_bind (atomic_choosePosition q command locked) ?_
  intro position current target
  show Succeeds (ExceptT.run (ite _ _ _))
  split
  · intro _
    rfl
  · intro _ _
    rfl

theorem atomic_streamWait (event : Event) (q : QueueRef) (system : System World) :
    Atomic t inv failureOf? (event.streamWait q).run system := by
  refine atomic_guarding ?_ system
  intro locked
  refine atomic_bind_request (fun _ => id) ?_
  intro system₁ binding
  split
  next => trivial
  next position _ =>
    refine atomic_bind_request (fun _ => id) ?_
    intro system₂ owner
    refine atomic_bind_request (fun _ => id) ?_
    intro system₃ target
    split
    · trivial
    · refine atomic_bind_request (fun _ => id) ?_
      intro system₄ able
      split
      · trivial
      · refine atomic_bind_request (fun _ => id) ?_
        intro system₅ profiling
        refine atomic_bind (atomic_marker q _ system₅) ?_
        intro marker _
        rfl

theorem quiet_isReady (c : CommandRef) : Quiet (isReady c) := by
  intro status
  refine ⟨id, ?_⟩
  show Quiet (ite _ _ _)
  split
  · trivial
  · intro _
    refine ⟨id, ?_⟩
    intro _
    exact ⟨id, trivial⟩

theorem quiet_timestampsOf (c : CommandRef) : Quiet (timestampsOf c).run := by
  intro times
  refine ⟨id, ?_⟩
  cases times <;> trivial

/-! ### Measuring -/

/-- The marker that a position with timestamps is measured against has timestamps as well. -/
theorem atomic_freshMarkerEnd (hinv : ∀ system, inv system → system.engine.Timed)
    {position : CommandRef} {system : System World}
    (htimes : (system.engine.times? position).isSome) :
    Atomic t inv failureOf? (event.freshMarkerEnd position).run system := by
  obtain ⟨times, htimes⟩ := Option.isSome_iff_exists.1 htimes
  have hposition := World.lt_of_status_eq_complete (World.complete_of_times? htimes)
  intro asked₁ owner found₁ h₁ hasked₁ hserves₁ hlater₁
  refine ⟨?_, fun halters => absurd halters id⟩
  rcases hserves₁.owner with ⟨rfl, -⟩ | rfl
  · trivial
  · -- the queue of the position profiles
    have hprofiling := (hinv asked₁ hasked₁).profiling_of_times? (h₁.grows.times? htimes)
    have hqueue := h₁.world.owner position (Nat.lt_of_lt_of_le hposition h₁.grows.commands_le)
    generalize (asked₁.engine.command position).queue = q at hprofiling hqueue
    intro asked₂ _ found₂ h₂ _ _ hlater₂
    refine ⟨?_, fun halters => absurd halters id⟩
    intro asked₃ _ found₃ h₃ _ _ hlater₃
    refine ⟨?_, fun halters => absurd halters id⟩
    intro asked₄ profiling found₄ h₄ _ hserves₄ hlater₄
    refine ⟨?_, fun halters => absurd halters id⟩
    have hgrows := (((hlater₁.grows.trans h₂.grows).trans hlater₂.grows).trans h₃.grows).trans
      (hlater₃.grows.trans h₄.grows)
    obtain rfl : profiling = true :=
      hserves₄.profiling.trans ((hgrows.queue q hqueue).2.1.trans hprofiling)
    -- so the marker is timed
    intro asked₅ marker found₅ h₅ _ hserves₅ hlater₅
    refine ⟨?_, ?_⟩
    · cases marker with
      | error failure => trivial
      | ok m =>
        refine atomic_bind_request (fun _ => id) ?_
        intro system _
        exact atomic_bind_quiet (quiet_timestampsOf m) fun _ _ => trivial
    · rintro ⟨m, rfl⟩
      obtain ⟨hvalue, hstate⟩ := hserves₅.marker
      have hm : m < found₅.engine.commands.length := by
        rw [hstate]
        exact World.lt_of_value_submit hvalue.symm
      have hmarker : (found₅.engine.command m).timed = true := by
        have hgrows₅ := hgrows.trans (hlater₄.grows.trans h₅.grows)
        rw [hstate, World.enqueueMarker, (World.command_of_value_submit hvalue.symm).2,
          (hgrows₅.queue q hqueue).2.1, hprofiling]
        rfl
      refine (ensures_markerEnd hinv hm hmarker).imp _ ?_
      rintro system' _ ⟨-, u, rfl, -⟩
      rfl

theorem atomic_nanosBetween (hinv : ∀ system, inv system → system.engine.Timed) (start : Event)
    (startRecorded stopRecorded : Bool) (startPosition stopPosition : CommandRef)
    (system : System World) :
    Atomic t inv failureOf?
      (Event.nanosBetween start startRecorded stopRecorded startPosition stopPosition).run
        system := by
  intro asked times system' hmeanwhile _ hserves hlater
  refine ⟨?_, fun halters => absurd halters id⟩
  have htimes := hserves.timestamps
  cases times with
  | none => trivial
  | some times =>
    have hcomplete := World.complete_of_times? htimes.symm
    show Atomic t inv failureOf? (ExceptT.run (ite _ _ _)) system'
    split
    · exact atomic_bind_quiet (quiet_timestampsOf stopPosition) fun _ _ => trivial
    · split
      · refine atomic_bind (atomic_freshMarkerEnd hinv ?_) ?_
        · rw [hlater.grows.times?_of_complete hcomplete, ← htimes]
          rfl
        · intro stop
          rfl
      · exact atomic_bind_quiet (quiet_timestampsOf stopPosition) fun _ _ => trivial

theorem atomic_nanosToSelf (event : Event) (system : System World) :
    Atomic t inv failureOf? event.nanosToSelf.run system := by
  refine atomic_guarding ?_ system
  intro locked
  refine atomic_bind_request (fun _ => id) ?_
  intro system₁ binding
  split
  next => trivial
  next position _ =>
    split
    · trivial
    · refine atomic_bind_quiet (quiet_isReady position).lift ?_
      intro system₂ ready
      split <;> trivial

theorem atomic_guardingBoth {start stop : Event} {operation : Operation α}
    (h : ∀ locked, Atomic t inv failureOf? operation.run locked) (system : System World) :
    Atomic t inv failureOf? (Event.guardingBoth start stop operation).run system := by
  unfold Event.guardingBoth
  split
  · exact atomic_guarding (atomic_guarding h) system
  · exact atomic_guarding (atomic_guarding h) system

theorem atomic_nanosToOther (hinv : ∀ system, inv system → system.engine.Timed)
    (start stop : Event) (system : System World) :
    Atomic t inv failureOf? (Event.nanosToOther start stop).run system := by
  refine atomic_guardingBoth ?_ system
  intro locked
  refine atomic_bind_request (fun _ => id) ?_
  intro system₁ startBinding
  refine atomic_bind_request (fun _ => id) ?_
  intro system₂ stopBinding
  split
  next startPosition stopPosition _ _ =>
    split
    · trivial
    · refine atomic_bind_quiet (quiet_isReady startPosition).lift ?_
      intro system₃ ready
      split
      · trivial
      · refine atomic_bind_quiet (quiet_isReady stopPosition).lift ?_
        intro system₄ ready'
        split
        · trivial
        · exact atomic_nanosBetween hinv _ _ _ _ _ system₄
  next => trivial

theorem atomic_elapsedTime (hinv : ∀ system, inv system → system.engine.Timed)
    (start stop : Event) (system : System World) :
    Atomic t inv failureOf? (start.elapsedTime stop).run system := by
  refine atomic_bind ?_ fun nanos => rfl
  unfold Event.elapsedNanos
  split
  · exact atomic_nanosToSelf start system
  · exact atomic_nanosToOther hinv start stop system

end Event

namespace Table

variable {table : TableRef} {handle : EventHandle}

theorem quiet_get (table : TableRef) (handle : EventHandle) : Quiet (Table.get table handle).run := by
  intro found
  refine ⟨id, ?_⟩
  cases found <;> trivial

theorem quiet_create (flags : EventFlags) : Quiet (Event.create flags).run := by
  unfold Event.create
  cases flags.validate with
  | error failure => trivial
  | ok _ =>
    intro _
    exact ⟨id, trivial⟩

theorem atomic_create (table : TableRef) (raw : UInt32) (system : System World) :
    Atomic t inv failureOf? (Table.create table raw).run system := by
  unfold Table.create
  refine atomic_bind_quiet trivial ?_
  intro system₁ flags
  refine atomic_bind_quiet (quiet_create flags) ?_
  intro system₂ event asked handle system' _ _ _ _
  cases handle with
  | none => exact ⟨trivial, nofun⟩
  | some handle =>
    have hsucceeds : Succeeds (ExceptT.run (do
        Program.log (.created handle flags)
        return handle : Operation EventHandle)) := fun _ => rfl
    exact ⟨hsucceeds.atomic system', fun _ => hsucceeds.ensures system'⟩

theorem atomic_destroy (table : TableRef) (handle : EventHandle) (system : System World) :
    Atomic t inv failureOf? (Table.destroy table handle).run system := by
  intro asked found system' _ _ _ _
  cases found with
  | false => exact ⟨trivial, nofun⟩
  | true =>
    have hsucceeds : Succeeds (ExceptT.run
        (liftM (Program.log (.destroyed handle)) : Operation Unit)) := fun _ => rfl
    exact ⟨hsucceeds.atomic system', fun _ => hsucceeds.ensures system'⟩

theorem atomic_record (table : TableRef) (handle : EventHandle) (q : QueueRef)
    (system : System World) :
    Atomic t inv failureOf? (Table.record table handle q).run system := by
  refine atomic_bind_request (fun _ => id) ?_
  intro system₁ target
  refine atomic_bind_request (fun _ => id) ?_
  intro system₂ _
  refine atomic_bind_quiet (quiet_get table handle) ?_
  intro system₃ event
  exact Event.atomic_addMarker event q none true system₃

theorem atomic_streamWait (table : TableRef) (handle : EventHandle) (q : QueueRef)
    (system : System World) :
    Atomic t inv failureOf? (Table.streamWait table handle q).run system := by
  refine atomic_bind_request (fun _ => id) ?_
  intro system₁ target
  refine atomic_bind_request (fun _ => id) ?_
  intro system₂ _
  refine atomic_bind_quiet (quiet_get table handle) ?_
  intro system₃ event
  exact Event.atomic_streamWait event q system₃

theorem atomic_elapsedTime (hinv : ∀ system, inv system → system.engine.Timed)
    (table : TableRef) (start stop : EventHandle) (system : System World) :
    Atomic t inv failureOf? (Table.elapsedTime table start stop).run system := by
  refine atomic_bind_quiet (quiet_get table start) ?_
  intro system₁ startEvent
  refine atomic_bind_quiet (quiet_get table stop) ?_
  intro system₂ stopEvent
  refine atomic_bind (Event.atomic_elapsedTime hinv startEvent stopEvent system₂) ?_
  intro millis _
  rfl

end Table

end Host

end SyncPoint
