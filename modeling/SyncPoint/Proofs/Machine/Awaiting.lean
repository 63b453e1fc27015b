import SyncPoint.Proofs.Machine.Measuring
import SyncPoint.Proofs.Machine.Promptness
import SyncPoint.Proofs.Machine.Waiting

/-!
# What measurements wait for

`Awaits` says what holds whenever a program waits for a command, whatever others do meanwhile.  A
measurement of two events waits for nothing but a marker behind the position that they share, and
holds both events while it waits (`Event.awaits_elapsedTime`).

What holds of the program of a call holds of what is left of it in every state that a machine gets
to (`Machine.rest_of_reachable`, `Machine.awaits_of_reachable`).
-/

namespace SyncPoint.Host

variable {α β : Type} {t : ThreadId} {ok : System World → CommandRef → Prop}
  {system : System World}

/-- Whenever the program waits for a command, `ok` holds of it. -/
def Awaits (t : ThreadId) (ok : System World → CommandRef → Prop) :
    Program α → System World → Prop
  | .done _, _ => True
  | .ask request next, system => ∀ asked, Meanwhile t system asked →
      (∀ c, request.awaited? = some c → ok asked c) ∧
        ∀ answer system', Serves t asked request answer system' → Later asked system' →
          Awaits t ok (next answer) system'

theorem awaits_of_forall (h : ∀ system c, ok system c) (program : Program α)
    (system : System World) : Awaits t ok program system := by
  induction program generalizing system with
  | done value => trivial
  | ask request next ih =>
    intro asked _
    exact ⟨fun c _ => h asked c, fun answer system' _ _ => ih answer system'⟩

theorem awaits_of_prompt {program : Program α} (h : program.Prompt) (system : System World) :
    Awaits t ok program system := by
  induction program generalizing system with
  | done value => trivial
  | ask request next ih =>
    intro asked _
    refine ⟨fun c hawaits => ?_, fun answer system' _ _ => ih answer (h.2 answer) system'⟩
    rw [h.1] at hawaits
    cases hawaits

theorem Awaits.andThen {program : Program β} {next : β → Program α}
    (mid : System World → β → Prop) (h : Awaits t ok program system)
    (hmid : Ensures t (fun _ => True) mid program system)
    (hnext : ∀ system' value, mid system' value → Awaits t ok (next value) system') :
    Awaits t ok (program.andThen next) system := by
  induction program generalizing system with
  | done value => exact hnext system value hmid
  | ask request rest ih =>
    intro asked hmeanwhile
    obtain ⟨hok, hrest⟩ := h asked hmeanwhile
    refine ⟨hok, fun answer system' hserves hlater => ?_⟩
    exact ih answer (hrest answer system' hserves hlater)
      (hmid asked answer system' hmeanwhile trivial hserves hlater)

theorem Awaits.imp {ok' : System World → CommandRef → Prop} {program : Program α}
    (h : Awaits t ok' program system) (hok : ∀ system c, ok' system c → ok system c) :
    Awaits t ok program system := by
  induction program generalizing system with
  | done value => trivial
  | ask request next ih =>
    intro asked hmeanwhile
    obtain ⟨hwaits, hnext⟩ := h asked hmeanwhile
    refine ⟨fun c hc => hok asked c (hwaits c hc), fun answer system' hserves hlater => ?_⟩
    exact ih answer (hnext answer system' hserves hlater)

/-- What follows without a wait makes no difference. -/
theorem Awaits.andThen_prompt {program : Program β} {next : β → Program α}
    (h : Awaits t ok program system) (hnext : ∀ value, (next value).Prompt) :
    Awaits t ok (program.andThen next) system :=
  h.andThen (fun _ _ => True) (ensures_true program system) fun system' value _ =>
    awaits_of_prompt (hnext value) system'

/-- Others may go on before the program does. -/
theorem Awaits.meanwhile {program : Program α} {later : System World}
    (h : Awaits t ok program system) (hmeanwhile : Meanwhile t system later) :
    Awaits t ok program later := by
  cases program with
  | done value => trivial
  | ask request next => exact fun asked hasked => h asked (hmeanwhile.trans hasked)

section Operations

variable {operation : Operation β} {next : β → Operation α}

theorem awaits_bind (mid : System World → Except Failure β → Prop) (h : operation.run.Prompt)
    (hmid : Ensures t (fun _ => True) mid operation.run system)
    (hnext : ∀ system' value, mid system' (.ok value) → Awaits t ok (next value).run system') :
    Awaits t ok (operation >>= next).run system := by
  refine (awaits_of_prompt h system).andThen mid hmid ?_
  intro system' result hresult
  cases result with
  | error failure => trivial
  | ok value => exact hnext system' value hresult

theorem awaits_bind_prompt (h : Awaits t ok operation.run system)
    (hnext : ∀ value, (next value).run.Prompt) : Awaits t ok (operation >>= next).run system := by
  apply h.andThen_prompt
  intro result
  cases result with
  | error failure => trivial
  | ok value => exact hnext value

theorem awaits_bind_isReady {c : CommandRef} {next : Bool → Operation α}
    (hnext : ∀ system' ready, Meanwhile t system system' →
      (ready = true → system'.engine.status c = .complete) → Awaits t ok (next ready).run system') :
    Awaits t ok ((liftM (isReady c) : Operation Bool) >>= next).run system := by
  show Awaits t ok (((isReady c).andThen _).andThen _) system
  rw [Program.andThen_assoc]
  refine (awaits_of_prompt (prompt_isReady c) system).andThen _ ensures_isReady ?_
  intro system' ready hready
  exact hnext system' ready hready.1 hready.2

theorem awaits_bind_engine {request : EngineRequest} {next : request.Answer → Operation α}
    (hrequest : (Request.engine request).awaited? = none)
    (hnext : ∀ asked answer system', Meanwhile t system asked → Meanwhile t asked system' →
      Serves t asked (.engine request) answer system' → Awaits t ok (next answer).run system') :
    Awaits t ok ((liftM (Program.engine request) : Operation _) >>= next).run system := by
  intro asked hmeanwhile
  refine ⟨fun c hawaits => ?_, fun answer system' hserves hlater => ?_⟩
  · rw [hrequest] at hawaits
    cases hawaits
  · exact hnext asked answer system' hmeanwhile (hserves.meanwhile hlater) hserves

theorem awaits_bind_log {entry : LogEntry} {next : Unit → Operation α}
    (hnext : ∀ system', Meanwhile t system system' → Awaits t ok (next ()).run system') :
    Awaits t ok ((liftM (Program.log entry) : Operation Unit) >>= next).run system := by
  intro asked hmeanwhile
  refine ⟨nofun, fun answer system' hserves hlater => ?_⟩
  cases hserves
  exact hnext _ (hmeanwhile.trans ⟨hlater, fun _ _ => rfl⟩)

theorem awaits_bind_binding {event : Event} {next : Binding → Operation α}
    (hnext : ∀ asked, Meanwhile t system asked →
      Awaits t ok (next (asked.binding event)).run asked) :
    Awaits t ok ((liftM (Program.request (.binding event)) : Operation Binding) >>= next).run
      system := by
  intro asked hmeanwhile
  refine ⟨nofun, fun answer system' hserves _ => ?_⟩
  cases hserves
  exact hnext asked hmeanwhile

theorem awaits_locking {event : Event} {body : Program α}
    (hevent : event.ordinal < system.cells.length)
    (hbody : ∀ locked, Meanwhile t system locked → holder locked event.ordinal = some t →
      Awaits t ok body locked) : Awaits t ok (event.locking body) system := by
  intro asked hmeanwhile
  refine ⟨nofun, fun answer locked hserves hlater => ?_⟩
  have hkept := hmeanwhile.trans (hserves.meanwhile_lock hlater)
  have hlt := Nat.lt_of_lt_of_le hevent hmeanwhile.cells_le
  cases hserves with
  | lock =>
    have hunlock : ∀ value : α, (Program.ask (.unlock event) fun _ => .done value).Prompt :=
      fun _ => ⟨rfl, fun _ => trivial⟩
    exact (hbody _ hkept (holder_setCell_self hlt _)).andThen_prompt hunlock

theorem awaits_guardingBoth {start stop : Event} {operation : Operation α}
    (hstart : start.ordinal < system.cells.length) (hstop : stop.ordinal < system.cells.length)
    (hbody : ∀ locked, holder locked start.ordinal = some t → holder locked stop.ordinal = some t →
      Awaits t ok operation.run locked) :
    Awaits t ok (Event.guardingBoth start stop operation).run system := by
  have hboth : ∀ first second : Event, first.ordinal < system.cells.length →
      second.ordinal < system.cells.length →
        (∀ locked, holder locked first.ordinal = some t → holder locked second.ordinal = some t →
          Awaits t ok operation.run locked) →
        Awaits t ok (first.guarding (second.guarding operation)).run system := by
    intro first second hfirst hsecond hbody
    refine awaits_locking hfirst fun locked hlocked hheld => ?_
    refine awaits_locking (Nat.lt_of_lt_of_le hsecond hlocked.cells_le) fun locked' hlocked' => ?_
    exact hbody locked' (hlocked'.holder hheld)
  unfold Event.guardingBoth
  split
  · exact hboth start stop hstart hstop hbody
  · exact hboth stop start hstop hstart fun locked hheld hheld' => hbody locked hheld' hheld

end Operations

/-! ## Measuring -/

/-- The command is a marker that came to the queue of the position behind it. -/
structure World.Behind (w : World) (p m : CommandRef) : Prop where
  lt : p < m
  exist : m < w.commands.length
  queue : (w.command m).queue = (w.command p).queue
  marker : (w.command m).kind = .marker

theorem World.Behind.grows {w w' : World} {p m : CommandRef} (h : w.Behind p m)
    (hgrows : w.Grows w') : w'.Behind p m := by
  have hm := hgrows.command m h.exist
  refine ⟨h.lt, Nat.lt_of_lt_of_le h.exist hgrows.commands_le, ?_, ?_⟩
  · rw [hgrows.queue_command h.exist, hgrows.queue_command (Nat.lt_trans h.lt h.exist), h.queue]
  · rw [hm]
    exact h.marker

/-- A marker that the queue of a position takes is behind it. -/
theorem World.behind_enqueueMarker {w : World} {p m : CommandRef} {timing : MarkerTiming}
    (hp : p < w.commands.length)
    (hm : (w.enqueueMarker (w.command p).queue ⟨timing, []⟩).value = .ok m) :
    (w.enqueueMarker (w.command p).queue ⟨timing, []⟩).state.Behind p m := by
  have hgrows : w.Grows (w.enqueueMarker (w.command p).queue ⟨timing, []⟩).state :=
    .of_called (.submit _ rfl nofun nofun)
  obtain ⟨rfl, hcommand⟩ := World.command_of_value_submit hm
  have hqueue := congrArg Command.queue hcommand
  have hkind := congrArg Command.kind hcommand
  refine ⟨hp, World.lt_of_value_submit hm, ?_, hkind⟩
  rw [hgrows.queue_command hp]
  exact hqueue

/-- A thread holds two events, which are at one position that has run, and recorded at least one of
them there. -/
structure Shares (t : ThreadId) (start stop : Event) (p : CommandRef) (system : System World) :
    Prop where
  ne : start.ordinal ≠ stop.ordinal
  holds_start : holder system start.ordinal = some t
  holds_stop : holder system stop.ordinal = some t
  start_at : (system.binding start).position? = some p
  stop_at : (system.binding stop).position? = some p
  recorded : (system.binding start).recorded = true ∨ (system.binding stop).recorded = true
  complete : system.engine.status p = .complete

theorem Shares.meanwhile {start stop : Event} {p : CommandRef} {later : System World}
    (h : Shares t start stop p system) (hmeanwhile : Meanwhile t system later) :
    Shares t start stop p later := by
  have hstart := hmeanwhile.binding h.holds_start
  have hstop := hmeanwhile.binding h.holds_stop
  refine ⟨h.ne, hmeanwhile.holder h.holds_start, hmeanwhile.holder h.holds_stop, ?_, ?_, ?_, ?_⟩
  · rw [hstart, h.start_at]
  · rw [hstop, h.stop_at]
  · rw [hstart, hstop]
    exact h.recorded
  · exact hmeanwhile.grows.status h.complete

/-- A thread measures two events, which share a position, against a marker behind it. -/
def MeasuresAgainst (t : ThreadId) (start stop : Event) (system : System World) (m : CommandRef) :
    Prop :=
  ∃ p, Shares t start stop p system ∧ system.engine.Behind p m

namespace Event

variable {start stop : Event} {p r : CommandRef}

/-- The wait for a marker. -/
theorem awaits_markerEnd {m : CommandRef} (hok : ∀ asked, Meanwhile t system asked → ok asked m) :
    Awaits t ok
      (do
        Program.engine (.await m)
        return (← timestampsOf m).stop : Operation UInt64).run system := by
  intro asked hmeanwhile
  refine ⟨fun c hc => ?_, fun answer system' _ _ => ?_⟩
  · cases hc
    exact hok asked hmeanwhile
  · apply awaits_of_prompt
    apply prompt_bind (prompt_timestampsOf m)
    intro times
    trivial

theorem awaits_freshMarkerEnd (hshares : Shares t start stop p system) :
    Awaits t (MeasuresAgainst t start stop) (start.freshMarkerEnd p).run system := by
  have hp := World.lt_of_status_eq_complete hshares.complete
  refine awaits_bind_engine rfl fun asked₁ owner found₁ h₁ h₁' hserves₁ => ?_
  rcases hserves₁.owner with ⟨rfl, -⟩ | rfl
  · trivial
  · -- the queue of the position is the same whenever it is asked for
    rw [h₁.grows.queue_command hp]
    refine awaits_bind_engine rfl fun asked₂ _ found₂ h₂ h₂' _ => ?_
    refine awaits_bind_log fun found₃ h₃ => ?_
    refine awaits_bind_engine rfl fun asked₄ profiling found₄ h₄ h₄' _ => ?_
    have hfound₄ := (h₁.trans h₁').trans ((h₂.trans h₂').trans (h₃.trans (h₄.trans h₄')))
    intro asked₅ h₅
    refine ⟨nofun, fun marker found₅ hserves₅ hlater₅ => ?_⟩
    have h₅' : Meanwhile t asked₅ found₅ := hserves₅.meanwhile hlater₅
    have hasked₅ := hfound₄.trans h₅
    obtain ⟨hvalue, hstate⟩ := hserves₅.marker
    cases marker with
    | error failure => trivial
    | ok m =>
      rw [← hasked₅.grows.queue_command hp] at hvalue hstate
      have hbehind : found₅.engine.Behind p m := by
        rw [hstate]
        apply World.behind_enqueueMarker _ hvalue.symm
        exact Nat.lt_of_lt_of_le hp hasked₅.grows.commands_le
      refine awaits_markerEnd fun asked₆ h₆ => ?_
      exact ⟨p, hshares.meanwhile ((hasked₅.trans h₅').trans h₆), hbehind.grows h₆.grows⟩

theorem awaits_nanosBetween {first second : Bool} (hp : system.engine.status p = .complete)
    (hshares : p = r → first = true ∨ second = true → Shares t start stop p system) :
    Awaits t (MeasuresAgainst t start stop) (start.nanosBetween first second p r).run system := by
  have hstop : ∀ reading, (do
      return Elapsed.nanosBetween reading (← timestampsOf r).stop : Operation Int).run.Prompt := by
    intro reading
    apply prompt_bind (prompt_timestampsOf r)
    intro times
    trivial
  refine awaits_bind _ (prompt_timestampsOf p) (ensures_timestampsOf hp) ?_
  rintro found times ⟨hfound, -⟩
  split
  · exact awaits_of_prompt (hstop times.stop) found
  · split
    next hfresh =>
      apply awaits_bind_prompt
      · exact awaits_freshMarkerEnd ((hshares hfresh.1 hfresh.2).meanwhile hfound)
      · intro reading
        trivial
    next => exact awaits_of_prompt (hstop times.start) found

theorem awaits_nanosToOther (hstart : start.ordinal < system.cells.length)
    (hstop : stop.ordinal < system.cells.length) (hne : start.ordinal ≠ stop.ordinal) :
    Awaits t (MeasuresAgainst t start stop) (Event.nanosToOther start stop).run system := by
  refine awaits_guardingBoth hstart hstop fun locked hheld hheld' => ?_
  refine awaits_bind_binding fun read₁ h₁ => ?_
  refine awaits_bind_binding fun read₂ h₂ => ?_
  rw [← h₂.binding (h₁.holder hheld)]
  have hholds := (h₁.trans h₂).holder hheld
  have hholds' := (h₁.trans h₂).holder hheld'
  split
  next p r hp hr =>
    split
    · trivial
    · refine awaits_bind_isReady fun found₁ ready₁ h₃ hdone₁ => ?_
      cases ready₁ with
      | false => trivial
      | true =>
        refine awaits_bind_isReady fun found₂ ready₂ h₄ _ => ?_
        cases ready₂ with
        | false => trivial
        | true =>
          have hdone := h₄.grows.status (hdone₁ rfl)
          apply awaits_nanosBetween hdone
          rintro rfl hrecorded
          have hfound := h₃.trans h₄
          have hstart := hfound.binding hholds
          have hstop := hfound.binding hholds'
          exact ⟨hne, hfound.holder hholds, hfound.holder hholds', by rw [hstart, hp],
            by rw [hstop, hr], by rw [hstart, hstop]; exact hrecorded, hdone⟩
  next => trivial

/-- A measurement waits for nothing but a marker behind the position that its events share. -/
theorem awaits_elapsedTime (hstart : start.ordinal < system.cells.length)
    (hstop : stop.ordinal < system.cells.length) :
    Awaits t (MeasuresAgainst t start stop) (start.elapsedTime stop).run system := by
  apply awaits_bind_prompt
  · unfold Event.elapsedNanos
    split
    · exact awaits_of_prompt (Event.prompt_nanosToSelf start) system
    next hne => exact awaits_nanosToOther hstart hstop hne
  · intro nanos
    trivial

end Event

/-! ## Calls -/

/-- The call measures two events, which it names or finds in a table. -/
inductive Call.Compares (start stop : Event) : Call → Prop
  | events : Compares start stop (.elapsedTime start stop)
  | handles (table : TableRef) (first second : EventHandle) :
      Compares start stop (.tableElapsedTime table first second)

/-- What is known of a command that a call waits for: a measurement waits for a marker. -/
def Call.AwaitsMarker (call : Call) (t : ThreadId) (system : System World) (m : CommandRef) :
    Prop :=
  call.measures = true → ∃ start stop, call.Compares start stop ∧ MeasuresAgainst t start stop system m

/-- An event that is found in a table exists. -/
theorem ensures_get {inv : System World → Prop} (table : TableRef) (handle : EventHandle) :
    Ensures t inv (fun system' result => Later system system' ∧
      ∀ event, result = .ok event → event.ordinal < system'.cells.length)
      (Table.get table handle).run system := by
  intro asked answer found hmeanwhile _ hserves hlater
  cases hserves
  have hfound := hmeanwhile.toLater.trans hlater
  cases hfind : (asked.table table).find? handle with
  | none => exact ⟨hfound, nofun⟩
  | some event =>
    refine ⟨hfound, fun event' heq => ?_⟩
    cases heq
    exact hlater.filed.listed table _ (mem_of_find? hfind)

theorem Call.awaits_enter {s : Machine} {call : Call} (hallowed : s.Allows call) :
    Awaits t (call.AwaitsMarker t) (call.enter s.system).1 (call.enter s.system).2 := by
  cases hmeasures : call.measures with
  | false =>
    apply awaits_of_forall
    intro system m hcompares
    rw [hmeasures] at hcompares
    cases hcompares
  | true =>
    cases call with
    | elapsedTime start stop =>
      have hstart := hallowed.events start (by simp [Call.events])
      have hstop := hallowed.events stop (by simp [Call.events])
      apply (Event.awaits_elapsedTime hstart hstop).imp
      intro system m hagainst _
      exact ⟨start, stop, .events, hagainst⟩
    | tableElapsedTime table first second =>
      refine awaits_bind _ (Table.prompt_get table first) (ensures_get table first) ?_
      rintro found₁ start ⟨-, hstart⟩
      refine awaits_bind _ (Table.prompt_get table second) (ensures_get table second) ?_
      rintro found₂ stop ⟨hlater, hstop⟩
      have hstart' := Nat.lt_of_lt_of_le (hstart start rfl) hlater.cells_le
      apply awaits_bind_prompt
      · apply (Event.awaits_elapsedTime hstart' (hstop stop rfl)).imp
        intro system m hagainst _
        exact ⟨start, stop, .handles table first second, hagainst⟩
      · intro millis
        exact prompt_bind_request rfl fun _ => trivial
    | _ => cases hmeasures

/-! ## What is left of calls -/

namespace Machine

variable {s : Machine} {task : Task}

/-- What holds of a call that begins, and goes on to hold with any answer, holds of every call
whenever it is looked at. -/
theorem task_of_reachable (holds : Task → Prop)
    (henter : ∀ call system, holds ⟨call, (call.enter system).1, call.queues⟩)
    (hask : ∀ call request next queues answer, holds ⟨call, .ask request next, queues⟩ →
      holds ⟨call, next answer, queues ++ handlesIn request answer⟩)
    (hs : s.Reachable) (htask : s.tasks t = some task) : holds task := by
  obtain ⟨process, h, hrun⟩ := hs
  induction hrun generalizing task with
  | refl => cases htask
  | snoc _ hstep ih =>
    cases hstep with
    | worker => exact ih htask
    | @enter u call =>
      by_cases hu : t = u
      · subst u
        cases (tasks_withTask_self ..).symm.trans htask
        exact henter call _
      · exact ih ((tasks_withTask_of_ne hu ..).symm.trans htask)
    | @ask u call request next queues answer system hbefore =>
      by_cases hu : t = u
      · subst u
        cases (tasks_withTask_self ..).symm.trans htask
        exact hask call request next queues answer (ih hbefore)
      · exact ih ((tasks_withTask_of_ne hu ..).symm.trans htask)

/-- What holds of a call's program, and of what is left of it after any answer, holds of what is
left of the call whenever it is looked at. -/
theorem rest_of_reachable (holds : (call : Call) → Program call.Result → Prop)
    (henter : ∀ call system, holds call (call.enter system).1)
    (hask : ∀ call request next answer, holds call (.ask request next) → holds call (next answer))
    (hs : s.Reachable) (htask : s.tasks t = some task) : holds task.call task.rest :=
  task_of_reachable (fun task => holds task.call task.rest) henter
    (fun call request next _ answer => hask call request next answer) hs htask

/-- A call that waits for no command never does. -/
theorem awaited?_of_prompt (hs : s.Reachable) {call : Call} {request : Request}
    {next : request.Answer → Program call.Result} {queues : List QueueRef}
    (htask : s.tasks t = some ⟨call, .ask request next, queues⟩) (hcall : call.mayWait = false) :
    request.awaited? = none := by
  have hprompt : call.mayWait = false → (Program.ask request next).Prompt :=
    rest_of_reachable (fun call rest => call.mayWait = false → rest.Prompt)
      (fun _ system hcall => Call.prompt_enter hcall system)
      (fun _ _ _ answer hrest hcall => (hrest hcall).2 answer) hs htask
  exact (hprompt hcall).1

/-- What holds whenever a call's program waits holds whenever what is left of it does. -/
theorem awaits_of_reachable {ok : Call → ThreadId → System World → CommandRef → Prop}
    (henter : ∀ (s : Machine) t call, s.Allows call →
      Awaits t (ok call t) (call.enter s.system).1 (call.enter s.system).2)
    (hs : s.Reachable) (htask : s.tasks t = some task) :
    Awaits t (ok task.call t) task.rest s.system := by
  obtain ⟨process, h, hrun⟩ := hs
  induction hrun generalizing task with
  | refl => cases htask
  | @snoc h l x y hbefore hstep ih =>
    have hsound : x.Sound := (Sound.start process).of_run hbefore
    have hsound' := hsound.of_step hstep
    by_cases hmine : l.thread? = some t
    · have hgrows := hsound.grows_of_step hstep
      cases hstep with
      | worker => cases hmine
      | @enter u call _ hallowed =>
        cases hmine
        cases (tasks_withTask_self ..).symm.trans htask
        exact henter x t call hallowed
      | @ask u call request next queues answer system hbefore' hserve =>
        cases hmine
        cases (tasks_withTask_self ..).symm.trans htask
        have hserves := serves_of_serve hserve
        exact (ih hbefore' x.system (.refl hsound.world hsound.filed)).2 answer system hserves
          ⟨hsound'.world, hsound'.filed, hgrows, hserves.cells_le⟩
    · obtain ⟨hsame, hmeanwhile⟩ := hsound.meanwhile hstep hmine
      exact (ih (hsame.symm.trans htask)).meanwhile hmeanwhile

end Machine

end SyncPoint.Host
