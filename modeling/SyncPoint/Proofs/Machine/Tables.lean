import SyncPoint.Proofs.Atomicity
import SyncPoint.Proofs.Ledger
import SyncPoint.Proofs.Machine.Exchanges

/-!
# What calls do to tables

The exchanges of a run tell what was done to a table (`Machine.ledger`).  The table keeps to that
ledger, and what is done to it is proper at each moment (`Machine.Keeps.of_run`).

Creating, destroying or getting an event is one act on the table, and so is counting the events; the
call returns what the act was answered.  A call that means an event by a handle which the table does
not know fails for that reason and does nothing but read.  None of these is ever kept waiting.
-/

namespace SyncPoint

open TableAct

/-- What an exchange does to a table. -/
def Host.Exchange.act? (ref : TableRef) : Host.Exchange → Option TableAct
  | ⟨.register r event, answer⟩ => if r = ref then some (.put event answer) else none
  | ⟨.unregister r handle, found⟩ => if r = ref then some (.take handle found) else none
  | ⟨.find r handle, answer⟩ => if r = ref then some (.look handle answer) else none
  | ⟨.size r, answer⟩ => if r = ref then some (.size answer) else none
  | _ => none

namespace Host

/-- What is done to a table in these exchanges. -/
def actsOf (ref : TableRef) (xs : List Exchange) : List TableAct := xs.filterMap (·.act? ref)

/-- The handles by which a call means events of its table. -/
def Call.handles : Call → List EventHandle
  | .tableDestroy _ handle | .tableGet _ handle | .tableRecord _ handle _ | .tableQuery _ handle
  | .tableSynchronize _ handle | .tableStreamWait _ handle _ => [handle]
  | .tableElapsedTime _ start stop => [start, stop]
  | _ => []

/-! ## What a request does to a table -/

theorem table_setTable_self {σ : Type} {system : System σ} {ref : TableRef}
    (href : ref < system.tables.length) (table : Table) :
    (system.setTable ref table).table ref = table := by
  simp [System.table, System.setTable, href]

theorem table_setTable_of_ne {σ : Type} (system : System σ) {ref other : TableRef}
    (hne : other ≠ ref) (table : Table) :
    (system.setTable ref table).table other = system.table other := by
  simp [System.table, System.setTable, List.getElem?_set_ne hne.symm]

/-- Nothing is put into a table that is not there. -/
theorem lt_of_insert? {σ : Type} {system : System σ} {ref : TableRef} {event : Event}
    {filled : EventHandle × Table} (h : (system.table ref).insert? event = some filled) :
    ref < system.tables.length := by
  by_contra hge
  simp [System.table, Nat.le_of_not_lt hge, Table.insert?, Table.isFull] at h

/-- Nothing is found in a table that is not there. -/
theorem lt_of_find? {σ : Type} {system : System σ} {ref : TableRef} {handle : EventHandle}
    {event : Event} (h : (system.table ref).find? handle = some event) :
    ref < system.tables.length := by
  by_contra hge
  simp [System.table, Nat.le_of_not_lt hge, Table.find?] at h

/-- A request is an act on the table, or leaves it alone. -/
theorem acts_of_serve {σ : Type} {engine : Engine σ} {t : ThreadId} {request : Request}
    {answer : request.Answer} {a b : System σ} (ref : TableRef)
    (h : System.serve engine t request a = some (answer, b)) :
    match Exchange.act? ref ⟨request, answer⟩ with
    | none => b.table ref = a.table ref
    | some act => (a.table ref).Acts act (b.table ref) := by
  cases request with
  | engine request =>
    obtain ⟨reply, -, heq⟩ := Option.map_eq_some_iff.1 h
    cases heq
    rfl
  | newEvent | unlock | binding | bind | log => cases h; rfl
  | lock | peek =>
    rw [System.serve] at h
    split at h <;> cases h <;> rfl
  | register r event =>
    by_cases hr : r = ref
    · subst r
      rw [System.serve] at h
      split at h
      next hinsert =>
        cases h
        simpa [Exchange.act?] using .refuse hinsert
      next hinsert =>
        cases h
        simpa [Exchange.act?, table_setTable_self (lt_of_insert? hinsert)] using .put hinsert
    · rw [System.serve] at h
      split at h <;> cases h
      · simp [Exchange.act?, hr]
      · simpa [Exchange.act?, hr] using table_setTable_of_ne a (Ne.symm hr) _
  | unregister r handle =>
    by_cases hr : r = ref
    · subst r
      rw [System.serve] at h
      split at h
      next hfind =>
        cases h
        simpa [Exchange.act?] using .miss hfind
      next hfind =>
        cases h
        simpa [Exchange.act?, table_setTable_self (lt_of_find? hfind)] using .take hfind
    · rw [System.serve] at h
      split at h <;> cases h
      · simp [Exchange.act?, hr]
      · simpa [Exchange.act?, hr] using table_setTable_of_ne a (Ne.symm hr) _
  | find r handle =>
    cases h
    by_cases hr : r = ref
    · subst r
      simpa [Exchange.act?] using .look handle
    · simp [Exchange.act?, hr]
  | size r =>
    cases h
    by_cases hr : r = ref
    · subst r
      simpa [Exchange.act?] using .size
    · simp [Exchange.act?, hr]

/-- No request makes a table. -/
theorem length_tables_of_serve {σ : Type} {engine : Engine σ} {t : ThreadId} {request : Request}
    {answer : request.Answer} {a b : System σ}
    (h : System.serve engine t request a = some (answer, b)) :
    b.tables.length = a.tables.length := by
  cases request with
  | engine request =>
    obtain ⟨reply, -, heq⟩ := Option.map_eq_some_iff.1 h
    cases heq
    rfl
  | newEvent | unlock | binding | bind | find | size | log => cases h; rfl
  | lock | peek =>
    rw [System.serve] at h
    split at h <;> cases h <;> rfl
  | register | unregister =>
    rw [System.serve] at h
    split at h <;> cases h <;> simp [System.setTable]

namespace Machine

variable {s s' x y : Machine} {t : ThreadId} {l : Happening} {h : History} {ref : TableRef}
  {limit : Option Nat} {acts : List TableAct}

/-- What is done to a table in these steps. -/
def ledger (s : Machine) (ref : TableRef) (h : History) : List TableAct :=
  actsOf ref ((s.dealings h).map (·.exchange))

/-- What one thread does to a table in these steps. -/
def ledgerOf (s : Machine) (ref : TableRef) (t : ThreadId) (h : History) : List TableAct :=
  actsOf ref (exchangesOf t (s.dealings h))

theorem ledger_append (hrun : Run s h x) (h' : History) :
    s.ledger ref (h ++ h') = s.ledger ref h ++ x.ledger ref h' := by
  simp [ledger, dealings_append hrun, actsOf]

theorem ledger_concat (hrun : Run s h x) (l : Happening) :
    s.ledger ref (h ++ [l]) =
      s.ledger ref h ++ ((x.dealing? l).bind fun dealing => dealing.exchange.act? ref).toList := by
  rw [ledger, dealings_concat hrun]
  cases x.dealing? l with
  | none => simp [actsOf, ledger]
  | some dealing => cases hact : dealing.exchange.act? ref <;> simp [actsOf, ledger, hact]

/-- A table that is made is kept from the beginning of the call on. -/
theorem tables_enter (call : Call) (system : System World) (href : ref < system.tables.length) :
    (call.enter system).2.table ref = system.table ref ∧
      ref < (call.enter system).2.tables.length := by
  cases call with
  | newTable limit =>
    refine ⟨?_, Nat.lt_of_lt_of_le href (by simp [Call.enter])⟩
    simp [Call.enter, System.table, List.getElem?_append_left href]
  | _ => exact ⟨rfl, href⟩

/-- A step is an act on the table, or leaves it alone. -/
theorem Step.table_acts (hstep : Step s l s') (href : ref < s.system.tables.length) :
    ref < s'.system.tables.length ∧
      match (s.dealing? l).bind fun dealing => dealing.exchange.act? ref with
      | none => s'.system.table ref = s.system.table ref
      | some act => (s.system.table ref).Acts act (s'.system.table ref) := by
  cases hstep with
  | worker => exact ⟨href, rfl⟩
  | @enter t call =>
    obtain ⟨hsame, hlt⟩ := tables_enter call s.system href
    exact ⟨hlt, hsame⟩
  | @ask t call request next queues answer system htask hserve =>
    refine ⟨(length_tables_of_serve hserve).symm ▸ href, ?_⟩
    rw [dealing?, hserve]
    exact acts_of_serve ref hserve

/-- The table is there, and is as the acts say, which are proper. -/
structure Keeps (ref : TableRef) (limit : Option Nat) (s : Machine) (acts : List TableAct) :
    Prop where
  exists_table : ref < s.system.tables.length
  conforms : Conforms limit acts
  represents : Represents limit (s.system.table ref) acts

/-- Every step keeps to the table's ledger. -/
theorem Keeps.of_step (hkeeps : Keeps ref limit s acts) (hstep : Step s l s') :
    Keeps ref limit s' (acts ++
      ((s.dealing? l).bind fun dealing => dealing.exchange.act? ref).toList) := by
  obtain ⟨hexists, hconforms, hrepresents⟩ := hkeeps
  obtain ⟨hexists', hacts⟩ := hstep.table_acts hexists
  cases hact : (s.dealing? l).bind fun dealing => dealing.exchange.act? ref with
  | none =>
    rw [hact] at hacts
    rw [Option.toList_none, List.append_nil]
    exact ⟨hexists', hconforms, hacts.symm ▸ hrepresents⟩
  | some act =>
    rw [hact] at hacts
    have hproper : Proper limit acts act := hrepresents.proper hconforms hacts
    exact ⟨hexists', hconforms.concat hproper, hrepresents.after hconforms hacts⟩

theorem Keeps.of_run (hkeeps : Keeps ref limit s []) (hrun : Run s h s') :
    Keeps ref limit s' (s.ledger ref h) := by
  induction hrun with
  | refl => exact hkeeps
  | @snoc h l x y hbefore hstep ih =>
    rw [ledger_concat hbefore]
    exact ih.of_step hstep

/-- A table that was just made has an empty ledger. -/
theorem keeps_of_newTable (hreturns : Returns t (.newTable limit) s h ref s') :
    Keeps ref limit s' [] := by
  obtain ⟨-, rfl, rfl⟩ := hreturns.at_once rfl
  refine ⟨by simp [enter, withTask, Call.enter], .nil, ?_⟩
  simpa [enter, withTask, Call.enter, System.table] using Represents.start limit

end Machine

/-! ## Calls on tables -/

section Calls

variable {α : Type} {t : ThreadId} {inv : System World → Prop} {ref : TableRef}
  {handle : EventHandle}

/-- An event with these flags is put into the table, and its number is returned, unless there is no
room. -/
def PutIn (flags : EventFlags) (acts : List TableAct) (result : Except Failure EventHandle) :
    Prop :=
  ∃ event answer, event.flags = flags ∧ acts = [.put event answer] ∧
    result = match answer with
      | none => .error .tableFull
      | some handle => .ok handle

/-- What creating an event does to the table, and what it returns. -/
def Created (raw : UInt32) (acts : List TableAct) (result : Except Failure EventHandle) : Prop :=
  match EventFlags.ofRaw raw with
  | .error failure => acts = [] ∧ result = .error failure
  | .ok flags => PutIn flags acts result

/-- What destroying an event does to the table, and what it returns. -/
def Destroyed (handle : EventHandle) (acts : List TableAct) (result : Except Failure Unit) : Prop :=
  ∃ found, acts = [.take handle found] ∧
    result = if found then .ok () else .error .unknownEvent

/-- What getting an event does to the table, and what it returns. -/
def Got (handle : EventHandle) (acts : List TableAct) (result : Except Failure Event) : Prop :=
  ∃ answer, acts = [.look handle answer] ∧
    result = match answer with
      | none => .error .unknownEvent
      | some event => .ok event

/-- What counting the events does to the table, and what it returns. -/
def Counted (acts : List TableAct) (result : Nat) : Prop := acts = [.size result]

/-- What it does to the table to ask whether it is empty, and what that returns. -/
def ToldEmpty (acts : List TableAct) (result : Bool) : Prop :=
  ∃ n, acts = [.size n] ∧ result = decide (n = 0)

theorem completes_create (raw : UInt32) :
    Completes t inv (fun xs => Created raw (actsOf ref xs)) (Table.create ref raw).run := by
  unfold Created Table.create
  cases hflags : EventFlags.ofRaw raw with
  | error failure => exact ⟨rfl, rfl⟩
  | ok flags =>
    -- flags that are taken over are accepted again when the event is constructed
    have hvalid : flags.validate = .ok () := by
      unfold EventFlags.ofRaw at hflags
      cases hvalidate : EventFlags.validate ⟨raw⟩ with
      | error failure => simp [hvalidate, Except.map] at hflags
      | ok value =>
        simp only [hvalidate, Except.map, Except.ok.injEq] at hflags
        rw [← hflags, hvalidate]
    have hcreate : (Event.create flags).run = .ask (.newEvent flags) fun event =>
        .done (.ok event) := by
      unfold Event.create
      rw [hvalid]
      rfl
    show Completes t inv _ ((Event.create flags).run.andThen _)
    rw [hcreate]
    intro system₁ _
    refine ⟨_, _, rfl, ?_⟩
    intro system₂ _
    rw [System.serve]
    cases (system₂.table ref).insert? ⟨system₁.cells.length, flags⟩ with
    | none =>
      refine ⟨none, system₂, rfl, ⟨system₁.cells.length, flags⟩, none, rfl, ?_, rfl⟩
      simp [actsOf, Exchange.act?]
    | some filled =>
      refine ⟨some filled.1, _, rfl, ?_⟩
      intro system₃ _
      refine ⟨(), _, rfl, ⟨system₁.cells.length, flags⟩, some filled.1, rfl, ?_, rfl⟩
      simp [actsOf, Exchange.act?]

/-- Events that are created without a mask have the empty one, which is never refused. -/
theorem completes_createDefault :
    Completes t inv (fun xs => PutIn .empty (actsOf ref xs)) (Table.createDefault ref).run :=
  completes_create EventFlags.empty.bits

theorem completes_destroy (handle : EventHandle) :
    Completes t inv (fun xs => Destroyed handle (actsOf ref xs))
      (Table.destroy ref handle).run := by
  intro system₁ _
  rw [System.serve]
  cases (system₁.table ref).find? handle with
  | none =>
    refine ⟨false, system₁, rfl, false, ?_, rfl⟩
    simp [actsOf, Exchange.act?]
  | some event =>
    refine ⟨true, _, rfl, ?_⟩
    intro system₂ _
    refine ⟨(), _, rfl, true, ?_, rfl⟩
    simp [actsOf, Exchange.act?]

theorem completes_get (handle : EventHandle) :
    Completes t inv (fun xs => Got handle (actsOf ref xs)) (Table.get ref handle).run := by
  intro system _
  refine ⟨(system.table ref).find? handle, system, rfl, ?_⟩
  cases (system.table ref).find? handle with
  | none =>
    refine ⟨none, ?_, rfl⟩
    simp [actsOf, Exchange.act?]
  | some event =>
    refine ⟨some event, ?_, rfl⟩
    simp [actsOf, Exchange.act?]

theorem completes_count :
    Completes t inv (fun xs => Counted (actsOf ref xs)) (Table.count ref) := by
  intro system _
  refine ⟨(system.table ref).size, system, rfl, ?_⟩
  show actsOf ref [⟨.size ref, (system.table ref).size⟩] = _
  simp [actsOf, Exchange.act?]

theorem completes_isEmpty :
    Completes t inv (fun xs => ToldEmpty (actsOf ref xs)) (Table.isEmpty ref) := by
  intro system _
  refine ⟨(system.table ref).size, system, rfl, (system.table ref).size, ?_, rfl⟩
  simp [actsOf, Exchange.act?]

/-! ### Handles that mean nothing -/

/-- The table does not know the handle. -/
def Lacks (ref : TableRef) (handle : EventHandle) (system : System World) : Prop :=
  (system.table ref).find? handle = none

/-- The call failed because an event is unknown, and did nothing but read. -/
def Refused (xs : List Exchange) (result : Except Failure α) : Prop :=
  result = .error .unknownEvent ∧ ∀ x ∈ xs, x.OnlyReads

theorem onlyReads_log (entry : LogEntry) : Exchange.OnlyReads ⟨.log entry, ()⟩ := by
  intro t system system' h
  cases h
  rfl

theorem onlyReads_queueId (q : QueueRef) (answer : QueueId) :
    Exchange.OnlyReads ⟨.engine (.queueId q), answer⟩ := by
  intro t system system' h
  cases h
  rfl

theorem onlyReads_find (ref : TableRef) (handle : EventHandle) (answer : Option Event) :
    Exchange.OnlyReads ⟨.find ref handle, answer⟩ := by
  intro t system system' h
  cases h
  rfl

theorem onlyReads_miss (ref : TableRef) (handle : EventHandle) :
    Exchange.OnlyReads ⟨.unregister ref handle, false⟩ := by
  intro t system system' h
  rw [System.serve] at h
  split at h <;> cases h
  rfl

theorem Completes.imp {post post' : List Exchange → α → Prop} {program : Program α}
    (h : Completes t inv post program) (hpost : ∀ xs value, post xs value → post' xs value) :
    Completes t inv post' program := by
  induction program generalizing post post' with
  | done value => exact hpost [] value h
  | ask request next ih =>
    intro system hinv
    obtain ⟨answer, system', hserve, hnext⟩ := h system hinv
    exact ⟨answer, system', hserve, ih answer hnext fun xs => hpost (⟨request, answer⟩ :: xs)⟩

/-- What is read before the look-up makes no difference. -/
theorem Completes.refused_cons {x : Exchange} {program : Program (Except Failure α)}
    (h : Completes t inv Refused program) (hx : x.OnlyReads) :
    Completes t inv (fun xs => Refused (x :: xs)) program := by
  refine h.imp ?_
  rintro xs result ⟨hresult, hreads⟩
  exact ⟨hresult, List.forall_mem_cons.2 ⟨hx, hreads⟩⟩

/-- Nothing follows a look-up that finds nothing. -/
theorem refused_get (next : Event → Operation α) :
    Completes t (Lacks ref handle) Refused (Table.get ref handle >>= next).run := by
  intro system hlacks
  refine ⟨none, system, ?_, rfl, ?_⟩
  · rw [System.serve, hlacks]
  · simp [onlyReads_find]

/-- The second of two look-ups may be the one that finds nothing. -/
theorem refused_get_get (first : EventHandle) (next : Event → Event → Operation α) :
    Completes t (Lacks ref handle) Refused (Table.get ref first >>= fun event =>
      Table.get ref handle >>= next event).run := by
  intro system _
  refine ⟨(system.table ref).find? first, system, rfl, ?_⟩
  cases (system.table ref).find? first with
  | none => exact ⟨rfl, by simp [onlyReads_find]⟩
  | some event => exact (refused_get (next event)).refused_cons (onlyReads_find _ _ _)

/-- What is logged of a queue before the look-up makes no difference. -/
theorem refused_queueId_log (q : QueueRef) (entry : QueueId → LogEntry) {operation : Operation α}
    (h : Completes t inv Refused operation.run) :
    Completes t inv Refused
      (do
        Program.log (entry (← Program.engine (.queueId q)))
        operation : Operation α).run := by
  intro system₁ _
  refine ⟨_, _, rfl, ?_⟩
  intro system₂ _
  refine ⟨(), _, rfl, ?_⟩
  exact (h.refused_cons (onlyReads_log _)).imp fun xs result hrefused =>
    ⟨hrefused.1, List.forall_mem_cons.2 ⟨onlyReads_queueId _ _, hrefused.2⟩⟩

/-- A call that means an event by a handle which its table does not know is refused. -/
theorem refused_of_lacks {call : Call} (href : ref ∈ call.tables) (hhandle : handle ∈ call.handles)
    (system : System World) :
    Completes t (Lacks ref handle) (fun xs result => call.failure? result = some .unknownEvent ∧
      ∀ x ∈ xs, x.OnlyReads) (call.enter system).1 := by
  have hfailure : ∀ {α : Type} (xs : List Exchange) (result : Except Failure α),
      Refused xs result → failureOf? result = some .unknownEvent ∧ ∀ x ∈ xs, x.OnlyReads := by
    rintro α xs result ⟨rfl, hreads⟩
    exact ⟨rfl, hreads⟩
  cases call with
  | tableDestroy table number =>
    obtain rfl := List.mem_singleton.1 href
    obtain rfl := List.mem_singleton.1 hhandle
    intro system hlacks
    refine ⟨false, system, ?_, rfl, ?_⟩
    · rw [System.serve, hlacks]
    · simp [onlyReads_miss]
  | tableGet table number =>
    obtain rfl := List.mem_singleton.1 href
    obtain rfl := List.mem_singleton.1 hhandle
    intro system hlacks
    refine ⟨none, system, ?_, rfl, ?_⟩
    · rw [System.serve, hlacks]
    · simp [onlyReads_find]
  | tableRecord table number q =>
    obtain rfl := List.mem_singleton.1 href
    obtain rfl := List.mem_singleton.1 hhandle
    exact (refused_queueId_log q (.record handle) (refused_get fun event => event.record q)).imp
      hfailure
  | tableQuery table number =>
    obtain rfl := List.mem_singleton.1 href
    obtain rfl := List.mem_singleton.1 hhandle
    exact (refused_get fun event => liftM event.query).imp hfailure
  | tableSynchronize table number =>
    obtain rfl := List.mem_singleton.1 href
    obtain rfl := List.mem_singleton.1 hhandle
    intro system₁ _
    refine ⟨(), _, rfl, ?_⟩
    exact ((refused_get fun event => liftM event.synchronize).refused_cons (onlyReads_log _)).imp
      fun xs => hfailure _
  | tableStreamWait table number q =>
    obtain rfl := List.mem_singleton.1 href
    obtain rfl := List.mem_singleton.1 hhandle
    exact (refused_queueId_log q (.streamWait handle)
      (refused_get fun event => event.streamWait q)).imp hfailure
  | tableElapsedTime table start stop =>
    obtain rfl := List.mem_singleton.1 href
    rcases List.mem_pair.1 hhandle with rfl | rfl
    · exact (refused_get _).imp hfailure
    · exact (refused_get_get start _).imp hfailure
  | _ => simp [Call.handles] at hhandle

end Calls

end Host

end SyncPoint
