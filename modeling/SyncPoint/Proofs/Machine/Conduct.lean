import SyncPoint.Proofs.Host.Changes
import SyncPoint.Proofs.Machine.Basic

/-!
# How calls behave

A thread takes the locks of events in the order of their construction, touches a binding only under
the event's lock, and names commands and events that exist.  `Program.Obeys` says this of a program
along all answers it can get, while other threads add commands and events.  Most programs moreover
end with the locks they began with (`Program.Orderly`), and every call begins and ends with none
(`Call.enter_obeys`).

What is asked of a queue is left open: a queue that does not exist refuses commands.
-/

namespace SyncPoint

/-- How many commands and events there are. -/
structure Extent where
  commands : Nat
  events : Nat

namespace Extent

instance : LE Extent where
  le n n' := n.commands ≤ n'.commands ∧ n.events ≤ n'.events

theorem refl (n : Extent) : n ≤ n := ⟨Nat.le_refl _, Nat.le_refl _⟩

theorem trans {n n' n'' : Extent} (h : n ≤ n') (h' : n' ≤ n'') : n ≤ n'' :=
  ⟨Nat.le_trans h.1 h'.1, Nat.le_trans h.2 h'.2⟩

end Extent

namespace Request

/-- What a request has to respect, where its thread holds the locks of the events `held`. -/
def Permitted (held : List Nat) (n : Extent) : Request → Prop
  | .engine (.enqueueMarker _ request) => ∀ d ∈ request.waitList, d < n.commands
  | .engine (.await c) => c < n.commands
  | .lock event => event.ordinal < n.events ∧ ∀ o ∈ held, o < event.ordinal
  | .unlock event | .binding event => event.ordinal ∈ held
  | .bind event b => event.ordinal ∈ held ∧ ∀ c ∈ b.position?, c < n.commands
  | .register _ event => event.ordinal < n.events
  | _ => True

/-- What an answer names exists. -/
def Names (n : Extent) : (request : Request) → request.Answer → Prop
  | .engine (.enqueueMarker ..), answer => ∀ c, answer = .ok c → c < n.commands
  | .engine (.lastEnqueued _), answer => ∀ c ∈ answer, c < n.commands
  | .newEvent _, answer => answer.ordinal < n.events
  | .binding _, answer => ∀ c ∈ answer.position?, c < n.commands
  | .find .., answer => ∀ event ∈ answer, event.ordinal < n.events
  | _, _ => True

/-- The locks that a thread holds after a request. -/
def heldAfter (held : List Nat) : Request → List Nat
  | .lock event => event.ordinal :: held
  | .unlock event => held.filter (· ≠ event.ordinal)
  | _ => held

theorem Permitted.mono {request : Request} {held : List Nat} {n n' : Extent} (hn : n ≤ n')
    (h : request.Permitted held n) : request.Permitted held n' := by
  unfold Permitted at h ⊢
  split
  · exact fun d hd => Nat.lt_of_lt_of_le (h d hd) hn.1
  · exact Nat.lt_of_lt_of_le h hn.1
  · exact ⟨Nat.lt_of_lt_of_le h.1 hn.2, h.2⟩
  · exact h
  · exact h
  · exact ⟨h.1, fun c hc => Nat.lt_of_lt_of_le (h.2 c hc) hn.1⟩
  · exact Nat.lt_of_lt_of_le h hn.2
  · trivial

end Request

namespace Program

variable {α β : Type}

/-- Along all answers, every request respects what it has to, and `post` holds in the end of the
locks held, of what exists, and of the result. -/
def Obeys (post : List Nat → Extent → α → Prop) : Program α → List Nat → Extent → Prop
  | .done value, held, n => post held n value
  | .ask request next, held, n => request.Permitted held n ∧
      ∀ answer n', n ≤ n' → request.Names n' answer →
        (next answer).Obeys post (request.heldAfter held) n'

/-- The program ends with the locks that it begins with, and `post` holds of its result. -/
def Orderly (post : Extent → α → Prop) (program : Program α) (held : List Nat) (n : Extent) :
    Prop :=
  program.Obeys (fun held' n' value => held' = held ∧ n ≤ n' ∧ post n' value) held n

theorem Obeys.andThen {mid : List Nat → Extent → α → Prop} {post : List Nat → Extent → β → Prop}
    {program : Program α} {next : α → Program β} {held : List Nat} {n : Extent}
    (h : program.Obeys mid held n)
    (hnext : ∀ held' n' value, mid held' n' value → (next value).Obeys post held' n') :
    (program.andThen next).Obeys post held n := by
  induction program generalizing held n with
  | done value => exact hnext held n value h
  | ask request rest ih =>
    exact ⟨h.1, fun answer n' hn hnames => ih answer (h.2 answer n' hn hnames)⟩

theorem Obeys.imp {post post' : List Nat → Extent → α → Prop} {program : Program α}
    {held : List Nat} {n : Extent} (h : program.Obeys post held n)
    (hpost : ∀ held' n' value, post held' n' value → post' held' n' value) :
    program.Obeys post' held n := by
  rw [← program.andThen_done]
  exact h.andThen hpost

/-- Other threads may add commands and events before the program goes on. -/
theorem Obeys.mono {post : List Nat → Extent → α → Prop} {program : Program α} {held : List Nat}
    {n n' : Extent} (hpost : ∀ held value n n', n ≤ n' → post held n value → post held n' value)
    (hn : n ≤ n') (h : program.Obeys post held n) : program.Obeys post held n' := by
  cases program with
  | done value => exact hpost held value n n' hn h
  | ask request next =>
    exact ⟨h.1.mono hn, fun answer n'' hn' hnames => h.2 answer n'' (Extent.trans hn hn') hnames⟩

variable {held : List Nat} {n : Extent}

theorem orderly_done {post : Extent → α → Prop} {value : α} (h : post n value) :
    (done value).Orderly post held n :=
  ⟨rfl, n.refl, h⟩

theorem Orderly.andThen {mid : Extent → α → Prop} {post : Extent → β → Prop}
    {program : Program α} {next : α → Program β} (h : program.Orderly mid held n)
    (hnext : ∀ n' value, n ≤ n' → mid n' value → (next value).Orderly post held n') :
    (program.andThen next).Orderly post held n := by
  refine Obeys.andThen h fun held' n' value hmid => ?_
  obtain ⟨rfl, hn, hmid⟩ := hmid
  refine (hnext n' value hn hmid).imp fun held'' n'' value' hpost => ?_
  exact ⟨hpost.1, Extent.trans hn hpost.2.1, hpost.2.2⟩

theorem Orderly.imp {post post' : Extent → α → Prop} {program : Program α}
    (h : program.Orderly post held n) (hpost : ∀ n' value, post n' value → post' n' value) :
    program.Orderly post' held n :=
  Obeys.imp h fun _ n' value hp => ⟨hp.1, hp.2.1, hpost n' value hp.2.2⟩

theorem Orderly.obeys {post : Extent → α → Prop} {program : Program α}
    (h : program.Orderly post held n) :
    program.Obeys (fun held' _ _ => held' = held) held n :=
  Obeys.imp h fun _ _ _ hend => hend.1

/-- A request that is neither for a lock nor gives one back. -/
theorem orderly_request (request : Request) (hpermitted : request.Permitted held n)
    (hheld : request.heldAfter held = held) :
    (Program.request request).Orderly (fun n' answer => request.Names n' answer) held n :=
  ⟨hpermitted, fun _ _ hn hnames => ⟨hheld, hn, hnames⟩⟩

theorem orderly_engine (request : EngineRequest)
    (hpermitted : (Request.engine request).Permitted held n) :
    (Program.engine request).Orderly (fun n' answer => (Request.engine request).Names n' answer)
      held n :=
  orderly_request _ hpermitted rfl

theorem orderly_log (entry : LogEntry) : (Program.log entry).Orderly (fun _ _ => True) held n :=
  orderly_request (.log entry) trivial rfl

end Program

namespace Operation

variable {α β : Type} {held : List Nat} {n : Extent}

/-- The operation ends with the locks that it begins with, and `post` holds of its result if it
succeeds. -/
def Orderly (post : Extent → α → Prop) (operation : Operation α) (held : List Nat) (n : Extent) :
    Prop :=
  Program.Orderly (fun n' result => ∀ value, result = .ok value → post n' value) operation.run held n

theorem orderly_pure {post : Extent → α → Prop} {value : α} (h : post n value) :
    (pure value : Operation α).Orderly post held n :=
  Program.orderly_done fun _ heq => by cases heq; exact h

theorem orderly_throw {post : Extent → α → Prop} (failure : Failure) :
    (throw failure : Operation α).Orderly post held n :=
  Program.orderly_done fun _ heq => by cases heq

theorem orderly_throw_bind {post : Extent → β → Prop} (failure : Failure) (next : α → Operation β) :
    ((throw failure : Operation α) >>= next).Orderly post held n :=
  Program.orderly_done fun _ heq => by cases heq

theorem orderly_check (result : Except Failure α) :
    (Operation.check result).Orderly (fun _ _ => True) held n :=
  Program.orderly_done fun _ _ => trivial

theorem Orderly.bind {mid : Extent → α → Prop} {post : Extent → β → Prop}
    {operation : Operation α} {next : α → Operation β} (h : operation.Orderly mid held n)
    (hnext : ∀ n' value, n ≤ n' → mid n' value → (next value).Orderly post held n') :
    (operation >>= next).Orderly post held n := by
  refine Program.Orderly.andThen h fun n' result hn hmid => ?_
  cases result with
  | error failure => exact Program.orderly_done fun _ heq => by cases heq
  | ok value => exact hnext n' value hn (hmid value rfl)

theorem orderly_lift {post : Extent → α → Prop} {program : Program α}
    (h : program.Orderly post held n) : (liftM program : Operation α).Orderly post held n := by
  refine Program.Orderly.andThen h fun n' value _ hpost => ?_
  exact Program.orderly_done fun _ heq => by cases heq; exact hpost

theorem Orderly.bind_lift {mid : Extent → α → Prop} {post : Extent → β → Prop}
    {program : Program α} {next : α → Operation β} (h : program.Orderly mid held n)
    (hnext : ∀ n' value, n ≤ n' → mid n' value → (next value).Orderly post held n') :
    ((liftM program : Operation α) >>= next).Orderly post held n :=
  (orderly_lift h).bind hnext

end Operation

variable {held : List Nat} {n : Extent}

theorem isReady_orderly (c : CommandRef) : (isReady c).Orderly (fun _ _ => True) held n := by
  refine Program.Orderly.andThen (Program.orderly_engine _ trivial) fun _ status _ _ => ?_
  split
  · exact Program.orderly_done trivial
  · refine Program.Orderly.andThen (Program.orderly_engine _ trivial) fun _ _ _ _ => ?_
    refine Program.Orderly.andThen (Program.orderly_engine _ trivial) fun _ _ _ _ => ?_
    exact Program.orderly_done trivial

theorem timestampsOf_orderly (c : CommandRef) :
    (timestampsOf c).Orderly (fun _ _ => True) held n := by
  refine Operation.Orderly.bind_lift (Program.orderly_engine _ trivial) fun _ times _ _ => ?_
  split
  · exact Operation.orderly_pure trivial
  · exact Operation.orderly_throw _

namespace Event

variable {α : Type}

/-- What happens under a lock happens between taking it and giving it back. -/
theorem locking_orderly {event : Event} {post : Extent → α → Prop} {body : Program α}
    (hpost : ∀ n n' value, n ≤ n' → post n value → post n' value)
    (hevent : event.ordinal < n.events) (horder : ∀ o ∈ held, o < event.ordinal)
    (hbody : ∀ n', n ≤ n' → body.Orderly post (event.ordinal :: held) n') :
    (event.locking body).Orderly post held n := by
  refine ⟨⟨hevent, horder⟩, fun _ n₁ hn₁ _ => ?_⟩
  show (body.andThen _).Obeys _ _ _
  refine Program.Obeys.andThen (hbody n₁ hn₁) fun held' n₂ value hend => ?_
  obtain ⟨rfl, hn₂, hvalue⟩ := hend
  refine ⟨List.mem_cons_self, fun _ n₃ hn₃ _ => ⟨?_, ?_, hpost _ _ _ hn₃ hvalue⟩⟩
  · have hkept : held.filter (· ≠ event.ordinal) = held :=
      List.filter_eq_self.2 fun o ho => by simpa using Nat.ne_of_lt (horder o ho)
    simpa [Request.heldAfter] using hkept
  · exact Extent.trans hn₁ (Extent.trans hn₂ hn₃)

theorem guarding_orderly {event : Event} {body : Operation α}
    (hevent : event.ordinal < n.events) (horder : ∀ o ∈ held, o < event.ordinal)
    (hbody : ∀ n', n ≤ n' → body.Orderly (fun _ _ => True) (event.ordinal :: held) n') :
    (event.guarding body).Orderly (fun _ _ => True) held n :=
  locking_orderly (fun _ _ _ _ _ _ _ => trivial) hevent horder hbody

/-- The binding of an event whose lock is held. -/
theorem binding_orderly {event : Event} (hevent : event.ordinal ∈ held) :
    (Program.request (.binding event)).Orderly
      (fun n' binding => ∀ c ∈ binding.position?, c < n'.commands) held n :=
  Program.orderly_request (.binding event) hevent rfl

/-- A marker may wait for commands that exist. -/
theorem enqueueMarker_orderly (q : QueueRef) {request : MarkerRequest CommandRef}
    (hwait : ∀ d ∈ request.waitList, d < n.commands) :
    Operation.Orderly (fun n' c => c < n'.commands)
      (ExceptT.mk (Program.engine (.enqueueMarker q request))) held n :=
  Program.orderly_engine (.enqueueMarker q request) hwait

theorem currentPosition_orderly (q : QueueRef) :
    (currentPosition q).Orderly (fun n' c => c < n'.commands) held n := by
  refine Operation.Orderly.bind_lift (Program.orderly_engine _ trivial) fun _ profiling _ _ => ?_
  split
  · exact enqueueMarker_orderly q nofun
  · refine Operation.Orderly.bind_lift
      (Program.orderly_engine (.lastEnqueued q) trivial) fun n₁ last _ hlast => ?_
    split
    next => exact enqueueMarker_orderly q nofun
    next last =>
      refine Operation.Orderly.bind_lift (Program.orderly_engine _ trivial)
        fun n₂ visible hn₂ _ => ?_
      split
      · exact Operation.orderly_pure (Nat.lt_of_lt_of_le (hlast last rfl) hn₂.1)
      · exact enqueueMarker_orderly q nofun

theorem choosePosition_orderly (q : QueueRef) {command : Option CommandRef}
    (hcommand : ∀ c ∈ command, c < n.commands) :
    (choosePosition q command).Orderly (fun n' c => c < n'.commands) held n := by
  cases command with
  | none => exact currentPosition_orderly q
  | some c =>
    refine Operation.Orderly.bind_lift (Program.orderly_engine _ trivial) fun n₁ owner hn₁ _ => ?_
    refine Operation.Orderly.bind_lift (Program.orderly_engine _ trivial) fun n₂ target hn₂ _ => ?_
    split
    · exact Operation.orderly_pure
        (Nat.lt_of_lt_of_le (hcommand c rfl) (Extent.trans hn₁ hn₂).1)
    · exact Operation.orderly_throw _

theorem create_orderly (flags : EventFlags) :
    (create flags).Orderly (fun n' event => event.ordinal < n'.events) held n := by
  refine Operation.Orderly.bind (Operation.orderly_check _) fun _ _ _ _ => ?_
  exact Operation.orderly_lift (Program.orderly_request (.newEvent flags) trivial rfl)

theorem addMarker_orderly {event : Event} (q : QueueRef) {command : Option CommandRef}
    (recorded : Bool) (hevent : event.ordinal < n.events)
    (hcommand : ∀ c ∈ command, c < n.commands) :
    (event.addMarker q command recorded).Orderly (fun _ _ => True) [] n := by
  refine guarding_orderly hevent nofun fun n₁ hn₁ => ?_
  refine Operation.Orderly.bind
    (choosePosition_orderly q fun c hc => Nat.lt_of_lt_of_le (hcommand c hc) hn₁.1)
    fun n₂ position _ hposition => ?_
  refine Operation.Orderly.bind_lift (binding_orderly List.mem_cons_self)
    fun n₃ current hn₃ _ => ?_
  refine Operation.Orderly.bind_lift (Program.orderly_engine _ trivial) fun n₄ target hn₄ _ => ?_
  split
  · exact Operation.orderly_lift (Program.orderly_log _)
  · have hbound : position < n₄.commands :=
      Nat.lt_of_lt_of_le hposition (Extent.trans hn₃ hn₄).1
    refine Operation.Orderly.bind_lift
      (Program.orderly_request (.bind event (.bound position recorded))
        ⟨List.mem_cons_self, fun c hc => ?_⟩ rfl) fun _ _ _ _ => ?_
    · cases hc
      exact hbound
    · exact Operation.orderly_lift (Program.orderly_log _)

variable {event : Event} (hevent : event.ordinal < n.events)
include hevent

theorem isRecorded_orderly : event.isRecorded.Orderly (fun _ _ => True) [] n := by
  refine locking_orderly (fun _ _ _ _ _ => trivial) hevent nofun fun _ _ => ?_
  exact (binding_orderly List.mem_cons_self).andThen fun _ _ _ _ => Program.orderly_done trivial

theorem position?_orderly :
    event.position?.Orderly (fun n' position => ∀ c ∈ position, c < n'.commands) [] n := by
  refine locking_orderly (fun _ _ _ hn hpost c hc => Nat.lt_of_lt_of_le (hpost c hc) hn.1) hevent
    nofun fun _ _ => ?_
  exact (binding_orderly List.mem_cons_self).andThen fun _ _ _ hpost => Program.orderly_done hpost

theorem query_orderly : event.query.Orderly (fun _ _ => True) [] n := by
  refine locking_orderly (fun _ _ _ _ _ => trivial) hevent nofun fun _ _ => ?_
  refine (binding_orderly List.mem_cons_self).andThen fun _ binding _ _ => ?_
  split
  · exact Program.orderly_done trivial
  · exact (isReady_orderly _).andThen fun _ _ _ _ => Program.orderly_done trivial

theorem synchronize_orderly : event.synchronize.Orderly (fun _ _ => True) [] n := by
  refine (position?_orderly hevent).andThen fun _ position _ hposition => ?_
  split
  next => exact Program.orderly_done trivial
  next c =>
    exact (Program.orderly_engine (.await c) (hposition c rfl)).imp
      fun _ _ _ => trivial

theorem streamWait_orderly (q : QueueRef) :
    (event.streamWait q).Orderly (fun _ _ => True) [] n := by
  refine guarding_orderly hevent nofun fun n₁ _ => ?_
  refine Operation.Orderly.bind_lift (binding_orderly List.mem_cons_self)
    fun n₂ binding _ hbinding => ?_
  split
  next => exact Operation.orderly_pure trivial
  next position hposition =>
    refine Operation.Orderly.bind_lift (Program.orderly_engine _ trivial) fun n₃ owner hn₃ _ => ?_
    refine Operation.Orderly.bind_lift (Program.orderly_engine _ trivial) fun n₄ target hn₄ _ => ?_
    split
    · exact Operation.orderly_pure trivial
    · refine Operation.Orderly.bind_lift (Program.orderly_engine _ trivial) fun n₅ able hn₅ _ => ?_
      split
      · exact Operation.orderly_throw_bind _ _
      · refine Operation.Orderly.bind_lift (Program.orderly_engine _ trivial)
          fun n₆ profiling hn₆ _ => ?_
        have hold : position < n₆.commands :=
          Nat.lt_of_lt_of_le (hbinding position hposition)
            (Extent.trans hn₃ (Extent.trans hn₄ (Extent.trans hn₅ hn₆))).1
        refine Operation.Orderly.bind (enqueueMarker_orderly q (by simpa using hold))
          fun _ _ _ _ => ?_
        exact Operation.orderly_lift (Program.orderly_log _)

end Event

namespace Event

/-- The locks of two events are taken in the order of construction. -/
theorem guardingBoth_orderly {α : Type} {start stop : Event} {body : Operation α}
    (hstart : start.ordinal < n.events) (hstop : stop.ordinal < n.events)
    (hne : start.ordinal ≠ stop.ordinal)
    (hbody : ∀ held' n', n ≤ n' → start.ordinal ∈ held' → stop.ordinal ∈ held' →
      body.Orderly (fun _ _ => True) held' n') :
    (guardingBoth start stop body).Orderly (fun _ _ => True) [] n := by
  unfold guardingBoth
  split
  next hlt =>
    refine guarding_orderly hstart nofun fun n₁ hn₁ => ?_
    refine guarding_orderly (Nat.lt_of_lt_of_le hstop hn₁.2) (by simpa using hlt) fun n₂ hn₂ => ?_
    exact hbody _ _ (Extent.trans hn₁ hn₂) (by simp) (by simp)
  next hge =>
    have hlt : stop.ordinal < start.ordinal :=
      Nat.lt_of_le_of_ne (Nat.not_lt.1 hge) (Ne.symm hne)
    refine guarding_orderly hstop nofun fun n₁ hn₁ => ?_
    refine guarding_orderly (Nat.lt_of_lt_of_le hstart hn₁.2) (by simpa using hlt)
      fun n₂ hn₂ => ?_
    exact hbody _ _ (Extent.trans hn₁ hn₂) (by simp) (by simp)

theorem freshMarkerEnd_orderly (event : Event) (position : CommandRef) :
    (event.freshMarkerEnd position).Orderly (fun _ _ => True) held n := by
  refine Operation.Orderly.bind_lift (Program.orderly_engine _ trivial) fun _ owner _ _ => ?_
  split
  · exact Operation.orderly_throw _
  · refine Operation.Orderly.bind_lift (Program.orderly_engine _ trivial) fun _ target _ _ => ?_
    refine Operation.Orderly.bind_lift (Program.orderly_log _) fun _ _ _ _ => ?_
    refine Operation.Orderly.bind_lift (Program.orderly_engine _ trivial) fun _ profiling _ _ => ?_
    refine Operation.Orderly.bind (enqueueMarker_orderly _ nofun) fun _ marker _ hmarker => ?_
    refine Operation.Orderly.bind_lift (Program.orderly_engine (.await marker) hmarker)
      fun _ _ _ _ => ?_
    refine Operation.Orderly.bind (timestampsOf_orderly marker) fun _ _ _ _ => ?_
    exact Operation.orderly_pure trivial

theorem nanosBetween_orderly (start : Event) (startRecorded stopRecorded : Bool)
    (startPosition stopPosition : CommandRef) :
    (nanosBetween start startRecorded stopRecorded startPosition stopPosition).Orderly
      (fun _ _ => True) held n := by
  refine Operation.Orderly.bind (timestampsOf_orderly _) fun _ _ _ _ => ?_
  split
  · refine Operation.Orderly.bind (timestampsOf_orderly _) fun _ _ _ _ => ?_
    exact Operation.orderly_pure trivial
  · split
    · refine Operation.Orderly.bind (freshMarkerEnd_orderly _ _) fun _ _ _ _ => ?_
      exact Operation.orderly_pure trivial
    · refine Operation.Orderly.bind (timestampsOf_orderly _) fun _ _ _ _ => ?_
      exact Operation.orderly_pure trivial

theorem nanosToSelf_orderly {event : Event} (hevent : event.ordinal < n.events) :
    event.nanosToSelf.Orderly (fun _ _ => True) [] n := by
  refine guarding_orderly hevent nofun fun _ _ => ?_
  refine Operation.Orderly.bind_lift (binding_orderly List.mem_cons_self) fun _ _ _ _ => ?_
  split
  · exact Operation.orderly_throw _
  · split
    · exact Operation.orderly_throw_bind _ _
    · refine Operation.Orderly.bind_lift (isReady_orderly _) fun _ ready _ _ => ?_
      split
      · exact Operation.orderly_throw_bind _ _
      · exact Operation.orderly_pure trivial

theorem nanosToOther_orderly {start stop : Event} (hstart : start.ordinal < n.events)
    (hstop : stop.ordinal < n.events) (hne : start.ordinal ≠ stop.ordinal) :
    (nanosToOther start stop).Orderly (fun _ _ => True) [] n := by
  refine guardingBoth_orderly hstart hstop hne fun held' _ _ hheld hheld' => ?_
  refine Operation.Orderly.bind_lift (binding_orderly hheld) fun _ _ _ _ => ?_
  refine Operation.Orderly.bind_lift (binding_orderly hheld') fun _ _ _ _ => ?_
  split
  · split
    · exact Operation.orderly_throw_bind _ _
    · refine Operation.Orderly.bind_lift (isReady_orderly _) fun _ _ _ _ => ?_
      split
      · exact Operation.orderly_throw_bind _ _
      · refine Operation.Orderly.bind_lift (isReady_orderly _) fun _ _ _ _ => ?_
        split
        · exact Operation.orderly_throw_bind _ _
        · exact nanosBetween_orderly _ _ _ _ _
  · exact Operation.orderly_throw _

theorem elapsedTime_orderly {start stop : Event} (hstart : start.ordinal < n.events)
    (hstop : stop.ordinal < n.events) :
    (start.elapsedTime stop).Orderly (fun _ _ => True) [] n := by
  have hnanos : (start.elapsedNanos stop).Orderly (fun _ _ => True) [] n := by
    unfold elapsedNanos
    split
    next => exact nanosToSelf_orderly hstart
    next hne => exact nanosToOther_orderly hstart hstop hne
  exact hnanos.bind fun _ _ _ _ => Operation.orderly_pure trivial

end Event

namespace Table

theorem create_orderly (table : TableRef) (raw : UInt32) :
    (Table.create table raw).Orderly (fun _ _ => True) [] n := by
  refine Operation.Orderly.bind (Operation.orderly_check _) fun _ flags _ _ => ?_
  refine Operation.Orderly.bind (Event.create_orderly flags) fun _ event _ hevent => ?_
  refine Operation.Orderly.bind_lift
    (Program.orderly_request (.register table event) hevent rfl) fun _ handle _ _ => ?_
  split
  · exact Operation.orderly_throw _
  · refine Operation.Orderly.bind_lift (Program.orderly_log _) fun _ _ _ _ => ?_
    exact Operation.orderly_pure trivial

theorem destroy_orderly (table : TableRef) (handle : EventHandle) :
    (Table.destroy table handle).Orderly (fun _ _ => True) [] n := by
  refine Operation.Orderly.bind_lift
    (Program.orderly_request (.unregister table handle) trivial rfl)
    fun _ found _ _ => ?_
  split
  · exact Operation.orderly_lift (Program.orderly_log _)
  · exact Operation.orderly_throw _

theorem get_orderly (table : TableRef) (handle : EventHandle) :
    (Table.get table handle).Orderly (fun n' event => event.ordinal < n'.events) [] n := by
  refine Operation.Orderly.bind_lift
    (Program.orderly_request (.find table handle) trivial rfl)
    fun _ found _ hfound => ?_
  split
  next event => exact Operation.orderly_pure (hfound event rfl)
  next => exact Operation.orderly_throw _

theorem record_orderly (table : TableRef) (handle : EventHandle) (q : QueueRef) :
    (Table.record table handle q).Orderly (fun _ _ => True) [] n := by
  refine Operation.Orderly.bind_lift (Program.orderly_engine _ trivial) fun _ target _ _ => ?_
  refine Operation.Orderly.bind_lift (Program.orderly_log _) fun _ _ _ _ => ?_
  refine Operation.Orderly.bind (get_orderly table handle) fun _ event _ hevent => ?_
  exact Event.addMarker_orderly q true hevent nofun

theorem query_orderly (table : TableRef) (handle : EventHandle) :
    (Table.query table handle).Orderly (fun _ _ => True) [] n := by
  refine Operation.Orderly.bind (get_orderly table handle) fun _ event _ hevent => ?_
  exact Operation.orderly_lift (Event.query_orderly hevent)

theorem synchronize_orderly (table : TableRef) (handle : EventHandle) :
    (Table.synchronize table handle).Orderly (fun _ _ => True) [] n := by
  refine Operation.Orderly.bind_lift (Program.orderly_log _) fun _ _ _ _ => ?_
  refine Operation.Orderly.bind (get_orderly table handle) fun _ event _ hevent => ?_
  exact Operation.orderly_lift (Event.synchronize_orderly hevent)

theorem streamWait_orderly (table : TableRef) (handle : EventHandle) (q : QueueRef) :
    (Table.streamWait table handle q).Orderly (fun _ _ => True) [] n := by
  refine Operation.Orderly.bind_lift (Program.orderly_engine _ trivial) fun _ target _ _ => ?_
  refine Operation.Orderly.bind_lift (Program.orderly_log _) fun _ _ _ _ => ?_
  refine Operation.Orderly.bind (get_orderly table handle) fun _ event _ hevent => ?_
  exact Event.streamWait_orderly hevent q

theorem elapsedTime_orderly (table : TableRef) (start stop : EventHandle) :
    (Table.elapsedTime table start stop).Orderly (fun _ _ => True) [] n := by
  refine Operation.Orderly.bind (get_orderly table start) fun _ startEvent _ hstart => ?_
  refine Operation.Orderly.bind (get_orderly table stop) fun _ stopEvent hn hstop => ?_
  refine Operation.Orderly.bind
    (Event.elapsedTime_orderly (Nat.lt_of_lt_of_le hstart hn.2) hstop) fun _ millis _ _ => ?_
  refine Operation.Orderly.bind_lift (Program.orderly_log _) fun _ _ _ _ => ?_
  exact Operation.orderly_pure trivial

end Table

namespace Host

/-- How much there is of everything that requests name. -/
def extent (system : System World) : Extent :=
  ⟨system.engine.commands.length, system.cells.length⟩

/-- A call that can be made obeys, and gives back every lock that it takes. -/
theorem Call.enter_obeys {s : Machine} {call : Call} (hallowed : s.Allows call) :
    (call.enter s.system).1.Obeys (fun held _ _ => held = []) []
      (extent (call.enter s.system).2) := by
  have hevent : ∀ event ∈ call.events, event.ordinal < (extent s.system).events :=
    hallowed.events
  have hcommand : ∀ c ∈ call.commands, c < (extent s.system).commands := hallowed.commands
  cases call with
  | newQueue | cloneQueue | dropQueue | setPaused | shutdown | enqueueWork | enqueueMarker
  | newTable => rfl
  | finish q =>
    show (awaitBarrier (s.world.enqueueBarrier q).value).Obeys _ _ _
    cases hvalue : (s.world.enqueueBarrier q).value with
    | error => rfl
    | ok c => exact ⟨World.lt_of_value_submit hvalue, fun _ _ _ _ => rfl⟩
  | await c =>
    have hc := hcommand c (by simp [Call.commands])
    exact (Program.orderly_engine (.await c) hc).obeys
  | newEvent flags => exact (Event.create_orderly flags).obeys
  | addMarker event q command recorded =>
    have he := hevent event (by simp [Call.events])
    exact (Event.addMarker_orderly q recorded he fun c hc => hcommand c (by
      simpa [Call.commands] using hc)).obeys
  | isRecorded event => exact (Event.isRecorded_orderly (hevent event (by simp [Call.events]))).obeys
  | position? event => exact (Event.position?_orderly (hevent event (by simp [Call.events]))).obeys
  | display | tableSize | tableIsEmpty => exact ⟨trivial, fun _ _ _ _ => rfl⟩
  | query event => exact (Event.query_orderly (hevent event (by simp [Call.events]))).obeys
  | synchronize event =>
    exact (Event.synchronize_orderly (hevent event (by simp [Call.events]))).obeys
  | streamWait event q =>
    exact (Event.streamWait_orderly (hevent event (by simp [Call.events])) q).obeys
  | elapsedTime start stop =>
    exact (Event.elapsedTime_orderly (hevent start (by simp [Call.events]))
      (hevent stop (by simp [Call.events]))).obeys
  | tableCreate table raw => exact (Table.create_orderly table raw).obeys
  | tableCreateDefault table => exact (Table.create_orderly table EventFlags.empty.bits).obeys
  | tableDestroy table handle => exact (Table.destroy_orderly table handle).obeys
  | tableGet table handle => exact (Table.get_orderly table handle).obeys
  | tableRecord table handle q => exact (Table.record_orderly table handle q).obeys
  | tableQuery table handle => exact (Table.query_orderly table handle).obeys
  | tableSynchronize table handle => exact (Table.synchronize_orderly table handle).obeys
  | tableStreamWait table handle q => exact (Table.streamWait_orderly table handle q).obeys
  | tableElapsedTime table start stop => exact (Table.elapsedTime_orderly table start stop).obeys

end Host

end SyncPoint
