import SyncPoint.Proofs.Atomicity
import SyncPoint.Proofs.BindingContract
import SyncPoint.Proofs.Machine.Ending
import SyncPoint.Proofs.Machine.Exchanges

/-!
# Calls that bind events

Most operations bind nothing along any answers (`Bindless`).  Those that do bind the event that they
are about, while they hold its lock and to another position than it is at (`Rebinds`).  So whoever
binds an event in a run is in a call for that, on that very event or through a table in which the
call found it, and the call returns that it succeeded (`Machine.boundBy_of_step`).
-/

namespace SyncPoint

variable {α β : Type}

/-- The event that a request binds. -/
def Request.bound? : Request → Option Event
  | .bind event _ => some event
  | _ => none

/-- The program binds no event, whatever it is answered. -/
def Bindless : Program α → Prop
  | .done _ => True
  | .ask request next => request.bound? = none ∧ ∀ answer, Bindless (next answer)

/-! ## Programs that bind nothing -/

section Bindless

theorem Bindless.andThen {program : Program β} {next : β → Program α} (h : Bindless program)
    (hnext : ∀ value, Bindless (next value)) : Bindless (program.andThen next) := by
  induction program with
  | done value => exact hnext value
  | ask request rest ih => exact ⟨h.1, fun answer => ih answer (h.2 answer)⟩

theorem Program.Consults.bindless {program : Program α} (h : program.Consults) :
    Bindless program := by
  induction program with
  | done value => trivial
  | ask request next ih =>
    refine ⟨?_, fun answer => ih answer (h.2 answer)⟩
    cases request with
    | bind => exact h.1.elim
    | _ => rfl

theorem bindless_request_andThen {request : Request} {next : request.Answer → Program α}
    (hrequest : request.bound? = none) (hnext : ∀ answer, Bindless (next answer)) :
    Bindless ((Program.request request).andThen next) :=
  ⟨hrequest, hnext⟩

section Operations

variable {operation : Operation β} {next : β → Operation α}

theorem bindless_bind (h : Bindless operation.run) (hnext : ∀ value, Bindless (next value).run) :
    Bindless (operation >>= next).run := by
  refine Bindless.andThen h fun result => ?_
  cases result with
  | error failure => trivial
  | ok value => exact hnext value

theorem Bindless.lift {program : Program α} (h : Bindless program) :
    Bindless (liftM program : Operation α).run :=
  h.andThen fun _ => trivial

theorem bindless_bind_request {request : Request} {next : request.Answer → Operation α}
    (hrequest : request.bound? = none) (hnext : ∀ answer, Bindless (next answer).run) :
    Bindless ((liftM (Program.request request) : Operation request.Answer) >>= next).run :=
  ⟨hrequest, hnext⟩

theorem bindless_log (entry : LogEntry) :
    Bindless (liftM (Program.log entry) : Operation Unit).run :=
  ⟨rfl, fun _ => trivial⟩

theorem bindless_marker (q : QueueRef) (request : MarkerRequest CommandRef) :
    Bindless (ExceptT.mk (Program.engine (.enqueueMarker q request)) : Operation CommandRef).run :=
  ⟨rfl, fun _ => trivial⟩

end Operations

theorem bindless_isReady (c : CommandRef) : Bindless (isReady c) := by
  refine bindless_request_andThen rfl fun status => ?_
  split
  · trivial
  · exact ⟨rfl, fun _ => ⟨rfl, fun _ => trivial⟩⟩

theorem bindless_timestampsOf (c : CommandRef) : Bindless (timestampsOf c).run := by
  refine ⟨rfl, fun times => ?_⟩
  cases times <;> trivial

namespace Event

theorem bindless_locking (event : Event) {body : Program α} (h : Bindless body) :
    Bindless (event.locking body) :=
  ⟨rfl, fun _ => h.andThen fun _ => ⟨rfl, fun _ => trivial⟩⟩

theorem bindless_create (flags : EventFlags) : Bindless (create flags).run := by
  refine bindless_bind ?_ fun _ => ⟨rfl, fun _ => trivial⟩
  exact trivial

theorem bindless_position? (event : Event) : Bindless event.position? :=
  bindless_locking event ⟨rfl, fun _ => trivial⟩

theorem bindless_query (event : Event) : Bindless event.query := by
  apply bindless_locking
  refine bindless_request_andThen rfl fun binding => ?_
  split
  · trivial
  · exact (bindless_isReady _).andThen fun _ => trivial

theorem bindless_synchronize (event : Event) : Bindless event.synchronize := by
  refine (bindless_position? event).andThen fun position => ?_
  split
  · trivial
  · exact ⟨rfl, fun _ => trivial⟩

theorem bindless_streamWait (event : Event) (q : QueueRef) :
    Bindless (event.streamWait q).run := by
  apply bindless_locking
  refine bindless_bind_request rfl fun binding => ?_
  split
  · trivial
  · refine bindless_bind_request rfl fun owner => ?_
    refine bindless_bind_request rfl fun target => ?_
    split
    · trivial
    · refine bindless_bind_request rfl fun able => ?_
      split
      · trivial
      · refine bindless_bind_request rfl fun profiling => ?_
        exact bindless_bind (bindless_marker q _) fun _ => bindless_log _

theorem bindless_freshMarkerEnd (event : Event) (position : CommandRef) :
    Bindless (event.freshMarkerEnd position).run := by
  refine bindless_bind_request rfl fun owner => ?_
  split
  · trivial
  · refine bindless_bind_request rfl fun id => ?_
    refine bindless_bind_request rfl fun _ => ?_
    refine bindless_bind_request rfl fun profiling => ?_
    refine bindless_bind (bindless_marker _ _) fun marker => ?_
    refine bindless_bind_request rfl fun _ => ?_
    exact bindless_bind (bindless_timestampsOf marker) fun _ => trivial

theorem bindless_nanosBetween (start : Event) (first second : Bool) (p r : CommandRef) :
    Bindless (start.nanosBetween first second p r).run := by
  refine bindless_bind (bindless_timestampsOf p) fun times => ?_
  split
  · exact bindless_bind (bindless_timestampsOf r) fun _ => trivial
  · split
    · exact bindless_bind (bindless_freshMarkerEnd start p) fun _ => trivial
    · exact bindless_bind (bindless_timestampsOf r) fun _ => trivial

theorem bindless_nanosToSelf (event : Event) : Bindless event.nanosToSelf.run := by
  apply bindless_locking
  refine bindless_bind_request rfl fun binding => ?_
  split
  · trivial
  · split
    · trivial
    · refine bindless_bind (bindless_isReady _).lift fun ready => ?_
      split <;> trivial

theorem bindless_guardingBoth (start stop : Event) {operation : Operation α}
    (h : Bindless operation.run) : Bindless (guardingBoth start stop operation).run := by
  unfold guardingBoth
  split
  · exact bindless_locking start (bindless_locking stop h)
  · exact bindless_locking stop (bindless_locking start h)

theorem bindless_nanosToOther (start stop : Event) : Bindless (nanosToOther start stop).run := by
  apply bindless_guardingBoth
  refine bindless_bind_request rfl fun first => ?_
  refine bindless_bind_request rfl fun second => ?_
  split
  · split
    · trivial
    · refine bindless_bind (bindless_isReady _).lift fun ready => ?_
      split
      · trivial
      · refine bindless_bind (bindless_isReady _).lift fun ready' => ?_
        split
        · trivial
        · exact bindless_nanosBetween start _ _ _ _
  · trivial

theorem bindless_elapsedTime (start stop : Event) : Bindless (start.elapsedTime stop).run := by
  refine bindless_bind ?_ fun _ => trivial
  unfold elapsedNanos
  split
  · exact bindless_nanosToSelf start
  · exact bindless_nanosToOther start stop

end Event

namespace Table

theorem bindless_get (table : TableRef) (handle : EventHandle) :
    Bindless (get table handle).run := by
  refine bindless_bind_request rfl fun found => ?_
  split <;> trivial

theorem bindless_create (table : TableRef) (raw : UInt32) : Bindless (create table raw).run := by
  have hcheck : Bindless (Operation.check (EventFlags.ofRaw raw)).run := trivial
  refine bindless_bind hcheck fun flags => ?_
  refine bindless_bind (Event.bindless_create flags) fun event => ?_
  refine bindless_bind_request rfl fun handle => ?_
  split
  · trivial
  · exact bindless_bind_request rfl fun _ => trivial

theorem bindless_destroy (table : TableRef) (handle : EventHandle) :
    Bindless (destroy table handle).run := by
  refine bindless_bind_request rfl fun found => ?_
  split
  · exact bindless_log _
  · trivial

theorem bindless_query (table : TableRef) (handle : EventHandle) :
    Bindless (query table handle).run :=
  bindless_bind (bindless_get table handle) fun event => event.bindless_query.lift

theorem bindless_synchronize (table : TableRef) (handle : EventHandle) :
    Bindless (synchronize table handle).run := by
  refine bindless_bind_request rfl fun _ => ?_
  exact bindless_bind (bindless_get table handle) fun event => event.bindless_synchronize.lift

theorem bindless_streamWait (table : TableRef) (handle : EventHandle) (q : QueueRef) :
    Bindless (streamWait table handle q).run := by
  refine bindless_bind_request rfl fun target => ?_
  refine bindless_bind_request rfl fun _ => ?_
  exact bindless_bind (bindless_get table handle) fun event => event.bindless_streamWait q

theorem bindless_elapsedTime (table : TableRef) (start stop : EventHandle) :
    Bindless (elapsedTime table start stop).run := by
  refine bindless_bind (bindless_get table start) fun startEvent => ?_
  refine bindless_bind (bindless_get table stop) fun stopEvent => ?_
  refine bindless_bind (startEvent.bindless_elapsedTime stopEvent) fun millis => ?_
  exact bindless_bind_request rfl fun _ => trivial

end Table

end Bindless

namespace Host

variable {t : ThreadId} {named : List Exchange → Event → Prop} {xs : List Exchange}
  {system : System World}

/-! ## Programs that bind the event that they are about -/

/-- Whenever the program binds an event, what it was answered before names that event, and it is
bound to another position than it is at. -/
def Rebinds (t : ThreadId) (named : List Exchange → Event → Prop) :
    Program α → List Exchange → System World → Prop
  | .done _, _, _ => True
  | .ask request next, xs, system => ∀ asked, Meanwhile t system asked →
      (∀ event binding, request = .bind event binding →
        named xs event ∧ binding.position? ≠ (asked.binding event).position?) ∧
      ∀ answer system', Serves t asked request answer system' → Later asked system' →
        Rebinds t named (next answer) (xs ++ [⟨request, answer⟩]) system'

theorem rebinds_of_bindless {program : Program α} (h : Bindless program) :
    Rebinds t named program xs system := by
  induction program generalizing xs system with
  | done value => trivial
  | ask request next ih =>
    intro asked _
    refine ⟨fun event binding hrequest => ?_, fun answer system' _ _ => ih answer (h.2 answer)⟩
    subst hrequest
    cases h.1

theorem Rebinds.andThen {program : Program β} {next : β → Program α}
    (mid : System World → β → Prop) (h : Rebinds t named program xs system)
    (hmid : Ensures t (fun _ => True) mid program system)
    (hnext : ∀ ys system' value, mid system' value →
      Rebinds t named (next value) (xs ++ ys) system') :
    Rebinds t named (program.andThen next) xs system := by
  induction program generalizing xs system with
  | done value => exact List.append_nil xs ▸ hnext [] system value hmid
  | ask request rest ih =>
    intro asked hmeanwhile
    obtain ⟨hbinds, hrest⟩ := h asked hmeanwhile
    refine ⟨hbinds, fun answer system' hserves hlater => ?_⟩
    refine ih answer (hrest answer system' hserves hlater)
      (hmid asked answer system' hmeanwhile trivial hserves hlater) fun ys system'' value hend => ?_
    rw [List.append_assoc]
    exact hnext _ system'' value hend

/-- Others may go on before the program does. -/
theorem Rebinds.meanwhile {program : Program α} {later : System World}
    (h : Rebinds t named program xs system) (hmeanwhile : Meanwhile t system later) :
    Rebinds t named program xs later := by
  cases program with
  | done value => trivial
  | ask request next => exact fun asked hasked => h asked (hmeanwhile.trans hasked)

/-- Requests to the engine and entries for the log leave alone what a thread holds. -/
theorem ensures_of_consults {inv : System World → Prop} {program : Program α}
    (h : program.Consults) (hworld : system.engine.Sound) (hfiled : Filed system) :
    Ensures t inv (fun system' _ => Meanwhile t system system') program system := by
  suffices hfrom : ∀ earlier : System World, Meanwhile t earlier system →
      Ensures t inv (fun system' _ => Meanwhile t earlier system') program system from
    hfrom system (.refl hworld hfiled)
  induction program generalizing system with
  | done value => exact fun _ hearlier => hearlier
  | ask request next ih =>
    intro earlier hearlier asked answer system' hmeanwhile _ hserves hlater
    have hfound : Meanwhile t asked system' := by
      obtain ⟨hrequest, -⟩ := h
      cases request with
      | engine request => exact hserves.meanwhile hlater
      | log entry => cases hserves; exact ⟨hlater, fun _ _ => rfl⟩
      | _ => exact hrequest.elim
    exact ih answer (h.2 answer) hlater.world hlater.filed earlier
      ((hearlier.trans hmeanwhile).trans hfound)

section Operations

variable {operation : Operation β} {next : β → Operation α} {event : Event}

theorem rebinds_bind (mid : System World → Except Failure β → Prop)
    (h : Rebinds t named operation.run xs system)
    (hmid : Ensures t (fun _ => True) mid operation.run system)
    (hnext : ∀ ys system' value, mid system' (.ok value) →
      Rebinds t named (next value).run (xs ++ ys) system') :
    Rebinds t named (operation >>= next).run xs system := by
  refine h.andThen mid hmid fun ys system' result hresult => ?_
  cases result with
  | error failure => trivial
  | ok value => exact hnext ys system' value hresult

theorem rebinds_locking {body : Program α} (hevent : event.ordinal < system.cells.length)
    (hbody : ∀ ys locked, Meanwhile t system locked → holder locked event.ordinal = some t →
      Rebinds t named body (xs ++ ys) locked) :
    Rebinds t named (event.locking body) xs system := by
  intro asked hmeanwhile
  refine ⟨nofun, fun answer locked hserves hlater => ?_⟩
  have hlocked := hmeanwhile.trans (hserves.meanwhile_lock hlater)
  have hlt := Nat.lt_of_lt_of_le hevent hmeanwhile.cells_le
  cases hserves with
  | lock =>
    have hheld := holder_setCell_self hlt { asked.cell event with holder := some t }
    show Rebinds t named (body.andThen _) _ _
    refine (hbody _ _ hlocked hheld).andThen (fun _ _ => True) (ensures_true _ _) ?_
    intro ys system' value _
    exact rebinds_of_bindless ⟨rfl, fun _ => trivial⟩

/-- An event is bound while its lock is held, and only if it is at another position. -/
theorem rebinds_addMarker {command : Option CommandRef} {recorded : Bool} {q : QueueRef}
    (hnamed : ∀ ys, named (xs ++ ys) event) (hevent : event.ordinal < system.cells.length) :
    Rebinds t named (event.addMarker q command recorded).run xs system := by
  refine rebinds_locking hevent fun ys locked hlocked hheld => ?_
  have hchooses := Event.consults_choosePosition q command
  refine rebinds_bind _ (rebinds_of_bindless hchooses.bindless)
    (ensures_of_consults hchooses hlocked.world hlocked.filed) ?_
  intro zs chosen position hchosen read hread
  refine ⟨nofun, fun binding system₁ hserves₁ hlater₁ => ?_⟩
  cases hserves₁
  have hheld₁ := (hchosen.trans hread).holder hheld
  intro asked₂ h₂
  refine ⟨nofun, fun target system₂ hserves₂ hlater₂ => ?_⟩
  have hfound := h₂.trans (hserves₂.meanwhile hlater₂)
  show Rebinds t named (ExceptT.run (ite _ _ _)) _ _
  split
  next => exact rebinds_of_bindless (bindless_log _)
  next hother =>
    intro asked₃ h₃
    refine ⟨?_, fun _ _ _ _ => rebinds_of_bindless (bindless_log _)⟩
    rintro _ _ ⟨⟩
    refine ⟨?_, ?_⟩
    · simp only [List.append_assoc]
      exact hnamed _
    · rw [(hfound.trans h₃).binding hheld₁]
      exact fun hsame => hother hsame.symm

end Operations

/-- An event that was bound is bound as asked. -/
theorem Serves.bound {event : Event} {asked system' : System World} {binding : Binding}
    {answer : Unit} (h : Serves t asked (.bind event binding) answer system')
    (hevent : event.ordinal < asked.cells.length) : system'.binding event = binding := by
  cases h
  exact congrArg EventCell.binding (System.cell_setCell_self hevent _)

/-! ## Calls -/

/-- The call is to bind the event, given what it was answered: it names the event, or a look-up of
its own found it. -/
inductive Call.Binds (xs : List Exchange) (event : Event) : Call → Prop
  | named {q : QueueRef} {command : Option CommandRef} {recorded : Bool} :
      Call.Binds xs event (.addMarker event q command recorded)
  | found {table : TableRef} {handle : EventHandle} {q : QueueRef}
      (h : (⟨.find table handle, some event⟩ : Exchange) ∈ xs) :
      Call.Binds xs event (.tableRecord table handle q)

theorem Call.rebinds_enter {s : Machine} {call : Call} (hallowed : s.Allows call) :
    Rebinds t (fun xs event => call.Binds xs event) (call.enter s.system).1 []
      (call.enter s.system).2 := by
  cases call with
  | addMarker event q command recorded =>
    exact rebinds_addMarker (fun _ => .named) (hallowed.events event List.mem_cons_self)
  | tableRecord table handle q =>
    -- the queue's number, the log, the look-up
    intro asked₁ _
    refine ⟨nofun, fun _ system₁ _ _ asked₂ _ => ⟨nofun, fun _ system₂ _ _ asked₃ h₃ => ?_⟩⟩
    refine ⟨nofun, fun found system₃ hserves₃ hlater₃ => ?_⟩
    have hfound : (asked₃.table table).find? handle = found := by
      cases hserves₃
      rfl
    cases found with
    | none => trivial
    | some event =>
      have hlisted := h₃.filed.listed table _ (mem_of_find? hfound)
      exact rebinds_addMarker (fun ys => .found (by simp))
        (Nat.lt_of_lt_of_le hlisted hlater₃.cells_le)
  | newQueue | cloneQueue | dropQueue | setPaused | shutdown | enqueueWork | enqueueMarker
  | newTable => trivial
  | finish q =>
    refine rebinds_of_bindless ?_
    show Bindless (awaitBarrier (s.system.engine.enqueueBarrier q).value)
    cases (s.system.engine.enqueueBarrier q).value with
    | error failure => trivial
    | ok c => exact ⟨rfl, fun _ => trivial⟩
  | await c => exact rebinds_of_bindless ⟨rfl, fun _ => trivial⟩
  | newEvent flags => exact rebinds_of_bindless (Event.bindless_create flags)
  | isRecorded event =>
    exact rebinds_of_bindless (event.bindless_locking ⟨rfl, fun _ => trivial⟩)
  | position? event => exact rebinds_of_bindless event.bindless_position?
  | display | tableSize | tableIsEmpty => exact rebinds_of_bindless ⟨rfl, fun _ => trivial⟩
  | query event => exact rebinds_of_bindless event.bindless_query
  | synchronize event => exact rebinds_of_bindless event.bindless_synchronize
  | streamWait event q => exact rebinds_of_bindless (event.bindless_streamWait q)
  | elapsedTime start stop => exact rebinds_of_bindless (start.bindless_elapsedTime stop)
  | tableCreate table raw => exact rebinds_of_bindless (Table.bindless_create table raw)
  | tableCreateDefault table =>
    exact rebinds_of_bindless (Table.bindless_create table EventFlags.empty.bits)
  | tableDestroy table handle => exact rebinds_of_bindless (Table.bindless_destroy table handle)
  | tableGet table handle => exact rebinds_of_bindless (Table.bindless_get table handle)
  | tableQuery table handle => exact rebinds_of_bindless (Table.bindless_query table handle)
  | tableSynchronize table handle =>
    exact rebinds_of_bindless (Table.bindless_synchronize table handle)
  | tableStreamWait table handle q =>
    exact rebinds_of_bindless (Table.bindless_streamWait table handle q)
  | tableElapsedTime table start stop =>
    exact rebinds_of_bindless (Table.bindless_elapsedTime table start stop)

/-! ## Machines -/

namespace Machine

variable {s s' x y : Machine} {l : Happening} {h h' : History} {call : Call} {event other : Event}

theorem Began.snoc (hbegan : Began t call x h s) (hstep : Step s l s')
    (hl : ∀ call', l ≠ .enter t call') : Began t call x (h ++ [l]) s' := by
  refine ⟨hbegan.idle, hbegan.allowed, hbegan.run.snoc hstep, fun m hm => ?_⟩
  rcases List.mem_append.1 hm with hm | hm
  · exact hbegan.same m hm
  · rw [List.mem_singleton.1 hm]
    exact hl

/-- A thread that is in a call, or was in one last, began that call. -/
theorem began_of_task {task : Task} (hs : s.Reachable) (htask : s.tasks t = some task) :
    ∃ x h, x.Reachable ∧ Began t task.call x h s := by
  obtain ⟨process, h, hrun⟩ := hs
  induction hrun generalizing task with
  | refl => cases htask
  | @snoc h l x y hbefore hstep ih =>
    -- the call goes on, if the step does not begin another
    have hgoes : ∀ before : Task, x.tasks t = some before → (∀ call', l ≠ .enter t call') →
        ∃ z h, z.Reachable ∧ Began t before.call z h y := by
      intro before hbefore' hl
      obtain ⟨z, h', hz, hbegan⟩ := ih hbefore'
      exact ⟨z, _, hz, hbegan.snoc hstep hl⟩
    cases hstep with
    | worker => exact hgoes task htask nofun
    | @enter u call hidle hallowed =>
      by_cases hu : t = u
      · subst u
        cases (tasks_withTask_self ..).symm.trans htask
        exact ⟨x, [], ⟨process, h, hbefore⟩, hidle, hallowed, .refl, nofun⟩
      · refine hgoes task ((tasks_withTask_of_ne hu ..).symm.trans htask) ?_
        rintro _ ⟨⟩
        exact hu rfl
    | @ask u call request next queues answer system htask' hserve =>
      by_cases hu : t = u
      · subst u
        cases (tasks_withTask_self ..).symm.trans htask
        exact hgoes ⟨call, .ask request next, queues⟩ htask' nofun
      · exact hgoes task ((tasks_withTask_of_ne hu ..).symm.trans htask) nofun

/-- What is left of a call binds what the call is to bind, given what it was answered so far. -/
theorem Began.rebinds (hbegan : Began t call x h s) (hx : x.Reachable)
    {rest : Program call.Result} {queues : List QueueRef}
    (htask : s.tasks t = some ⟨call, rest, queues⟩) :
    Rebinds t (fun xs event => call.Binds xs event) rest
      (exchangesOf t ((x.enter t call).dealings h)) s.system := by
  have hentered := hx.run (Step.enter hbegan.idle hbegan.allowed).run
  have hsame := hbegan.same
  have hrun := hbegan.run
  induction hrun generalizing rest queues with
  | refl =>
    cases (tasks_withTask_self ..).symm.trans htask
    exact Call.rebinds_enter hbegan.allowed
  | @snoc h l y z hbefore hstep ih =>
    have hbegan' : Began t call x h y := ⟨hbegan.idle, hbegan.allowed, hbefore,
      fun m hm => hsame m (List.mem_append_left _ hm)⟩
    have hsound := sound_of_reachable (hentered.run hbefore)
    have hsound' := hsound.of_step hstep
    rw [dealings_concat hbefore, exchangesOf_append]
    by_cases hmine : l.thread? = some t
    · have hgrows := hsound.grows_of_step hstep
      cases hstep with
      | worker => cases hmine
      | enter =>
        cases hmine
        exact absurd rfl (hsame _ (List.mem_append_right _ List.mem_cons_self) _)
      | @ask u call' request next queues' answer system htask' hserve =>
        cases hmine
        cases (tasks_withTask_self ..).symm.trans htask
        have hserves := serves_of_serve hserve
        have hleft := ih hbegan' htask' hbegan'.same
        have hnext := (hleft y.system (.refl hsound.world hsound.filed)).2 answer system hserves
          ⟨hsound'.world, hsound'.filed, hgrows, hserves.cells_le⟩
        have hlast : exchangesOf t (y.dealing? (.ask t request)).toList = [⟨request, answer⟩] := by
          simp [dealing?, hserve, exchangesOf]
        rw [hlast]
        exact hnext
    · obtain ⟨hsame', hmeanwhile⟩ := hsound.meanwhile hstep hmine
      rw [exchangesOf_dealing?_of_ne y hmine, List.append_nil]
      exact (ih hbegan' (hsame'.symm.trans htask) hbegan'.same).meanwhile hmeanwhile

/-- What is left of a call that goes on is what its thread then does. -/
theorem Run.performs {rest : Program call.Result} {queues : List QueueRef} {value : call.Result}
    (hrun : Run s h x) (hsame : ∀ l ∈ h, ∀ call', l ≠ .enter t call') (hbusy : x.Busy t call)
    (htask : s.tasks t = some ⟨call, rest, queues⟩) (hperforms : Performs t call x h' value y) :
    Performs t call s (h ++ h') value y := by
  induction h generalizing s rest queues with
  | nil =>
    obtain rfl := hrun.eq_of_nil
    exact hperforms
  | cons l h ih =>
    obtain ⟨z, hstep, hrest⟩ := hrun.uncons
    have hsame' : ∀ m ∈ h, ∀ call', m ≠ .enter t call' :=
      fun m hm => hsame m (List.mem_cons_of_mem _ hm)
    cases rest with
    | done result =>
      -- it would still be done at the end
      have hdone := hrun.task_of_done hsame htask
      obtain ⟨task, htask', -, request, next, hasks⟩ := hbusy
      cases hdone.symm.trans htask'
      cases hasks
    | ask request next =>
      obtain ⟨⟨rest', queues', htask'⟩, -⟩ :=
        hstep.task_of_task (hsame l List.mem_cons_self) htask
      exact .step ⟨_, htask, rfl, request, next, rfl⟩ hstep (ih hrest hsame' htask')

/-- An event is what its ordinal says. -/
theorem binding_congr (hsame : other.ordinal = event.ordinal) {system : System World} :
    system.binding other = system.binding event := by
  simp [System.binding, System.cell, hsame]

/-- Who binds an event, and what comes of it. -/
structure BoundBy (s : Machine) (event : Event) (s' : Machine) (t : ThreadId) (call : Call)
    (x : Machine) (h : History) : Prop where
  /-- The thread made the call in `x` and has been in it since. -/
  began : Began t call x h s
  /-- The call is to bind the event. -/
  binds : ∃ other : Event, other.ordinal = event.ordinal ∧
    call.Binds (exchangesOf t ((x.enter t call).dealings h)) other
  /-- The event is then at another position than before. -/
  moved : (s'.system.binding event).position? ≠ (s.system.binding event).position?
  /-- If the call returns, it has succeeded. -/
  succeeds : ∀ h' value y, Performs t call s' h' value y → call.failure? value = none

/-- Whoever binds an event does so in a call for that, and succeeds. -/
theorem boundBy_of_step (hs : s.Reachable) (hstep : Step s l s') (hbinds : l.binds? = some other)
    (hsame : other.ordinal = event.ordinal) :
    ∃ t call x h, l.thread? = some t ∧ BoundBy s event s' t call x h := by
  cases hstep with
  | worker | enter => cases hbinds
  | @ask t call request next queues answer system htask hserve =>
    cases request with
    | bind bound binding =>
      cases hbinds
      have hsound := sound_of_reachable hs
      obtain ⟨x, h, hx, hbegan⟩ := began_of_task hs htask
      have hbinder := (hbegan.rebinds hx htask s.system (.refl hsound.world hsound.filed)).1
      obtain ⟨hnamed, hmoved⟩ := hbinder other binding rfl
      obtain ⟨held, hheld, hconduct⟩ := hsound.conduct t
      have hmine := (hheld _).1 (hconduct.of_task htask).1.1
      have hbound : system.binding other = binding :=
        (serves_of_serve hserve).bound (lt_of_holder hmine)
      have hchanged : (system.binding event).position? ≠ (s.system.binding event).position? := by
        rw [← binding_congr hsame, ← binding_congr hsame, hbound]
        exact hmoved
      refine ⟨t, call, x, h, rfl, hbegan, ⟨other, hsame, hnamed⟩, hchanged, ?_⟩
      intro h' value y hperforms
      cases hfailed : call.failure? value with
      | none => rfl
      | some failure =>
        have hbusy : s.Busy t call := ⟨_, htask, rfl, _, _, rfl⟩
        have hrest : Performs t call s (.ask t (.bind other binding) :: h') value y :=
          .step hbusy (.ask htask hserve) hperforms
        have hfirst := Step.enter hbegan.idle hbegan.allowed
        have hreturns : Returns t call x _ value y := ⟨_, rfl, hfirst,
          hbegan.run.performs hbegan.same hbusy (tasks_withTask_self ..) hrest⟩
        have hown := (failed_undisturbed hx hreturns hfailed).own (.enter t call :: h) _ h' s _ rfl
          (hfirst.run.trans hbegan.run) (.ask htask hserve) rfl
        exact absurd (congrArg Binding.position? (hown.binding event)) hchanged
    | _ => cases hbinds

end Machine

end Host

end SyncPoint
