import SyncPoint.Proofs.Host.Growth
import SyncPoint.Proofs.Machine.Conduct

/-!
# What an answer changes

`Serves` lists what becomes of a request that a thread has answered, so that no later proof opens
`System.serve`.  A request changes one place at most: a marker goes to a queue, one event's cell
changes, or one table does.  The lemmas below say for each part of the system what becomes of it,
and that what an answer names exists (`Serves.names`).
-/

namespace SyncPoint.Host

/-- The thread that holds the lock of an event. -/
def holder (system : System World) (o : Nat) : Option ThreadId :=
  (system.cells.getD o {}).holder

/-- The commands to which events are bound, and the events in tables, exist. -/
structure Filed (system : System World) : Prop where
  bound : ∀ event, ∀ c ∈ (system.binding event).position?, c < system.engine.commands.length
  listed : ∀ table, ∀ entry ∈ (system.table table).events, entry.2.ordinal < system.cells.length

/-- How a request of thread `t` can be answered. -/
inductive Serves (t : ThreadId) (system : System World) :
    (request : Request) → request.Answer → System World → Prop
  | engine {request : EngineRequest} {reply : Reply World request.Answer}
      (h : system.engine.serve request = some reply) :
      Serves t system (.engine request) reply.value
        { system with engine := reply.state, log := system.log ++ reply.log }
  | newEvent (flags : EventFlags) :
      Serves t system (.newEvent flags) ⟨system.cells.length, flags⟩
        { system with cells := system.cells ++ [{}] }
  | lock (event : Event) (hfree : holder system event.ordinal = none) :
      Serves t system (.lock event) ()
        (system.setCell event { system.cell event with holder := some t })
  | unlock (event : Event) :
      Serves t system (.unlock event) ()
        (system.setCell event { system.cell event with holder := none })
  | binding (event : Event) : Serves t system (.binding event) (system.binding event) system
  | peek (event : Event) (answer : Option Binding) : Serves t system (.peek event) answer system
  | bind (event : Event) (binding : Binding) :
      Serves t system (.bind event binding) ()
        (system.setCell event { system.cell event with binding := binding })
  | full (table : TableRef) (event : Event) : Serves t system (.register table event) none system
  | register {table : TableRef} {event : Event} {handle : EventHandle} {filled : Table}
      (hinsert : (system.table table).insert? event = some (handle, filled)) :
      Serves t system (.register table event) (some handle) (system.setTable table filled)
  | unknown (table : TableRef) (handle : EventHandle) :
      Serves t system (.unregister table handle) false system
  | unregister (table : TableRef) (handle : EventHandle) :
      Serves t system (.unregister table handle) true
        (system.setTable table ((system.table table).erase handle))
  | find (table : TableRef) (handle : EventHandle) :
      Serves t system (.find table handle) ((system.table table).find? handle) system
  | size (table : TableRef) : Serves t system (.size table) (system.table table).size system
  | log (entry : LogEntry) :
      Serves t system (.log entry) () { system with log := system.log ++ [entry] }

theorem serves_of_serve {t : ThreadId} {request : Request} {answer : request.Answer}
    {system system' : System World}
    (h : System.serve stillEngine t request system = some (answer, system')) :
    Serves t system request answer system' := by
  cases request with
  | engine request =>
    obtain ⟨reply, hreply, heq⟩ := Option.map_eq_some_iff.1 h
    cases heq
    exact .engine hreply
  | newEvent flags => cases h; exact .newEvent flags
  | lock event =>
    rw [System.serve] at h
    split at h
    next hfree => cases h; exact .lock event hfree
    next => cases h
  | unlock event => cases h; exact .unlock event
  | binding event => cases h; exact .binding event
  | peek event =>
    rw [System.serve] at h
    split at h <;> cases h <;> exact .peek event _
  | bind event binding => cases h; exact .bind event binding
  | register table event =>
    rw [System.serve] at h
    split at h
    next => cases h; exact .full table event
    next hinsert => cases h; exact .register hinsert
  | unregister table handle =>
    rw [System.serve] at h
    split at h
    next => cases h; exact .unknown table handle
    next => cases h; exact .unregister table handle
  | find table handle => cases h; exact .find table handle
  | size table => cases h; exact .size table
  | log entry => cases h; exact .log entry

/-- Only a marker that is enqueued changes the world. -/
theorem World.state_of_serve {w : World} {request : EngineRequest}
    {reply : Reply World request.Answer} (h : w.serve request = some reply) : reply.state = w ∨
      ∃ q marker, request = .enqueueMarker q marker ∧
        reply.state = (w.enqueueMarker q marker).state := by
  cases request with
  | enqueueMarker q marker => cases h; exact .inr ⟨q, marker, rfl, rfl⟩
  | await c =>
    rw [serve] at h
    split at h
    next => cases h; exact .inl rfl
    next => cases h
  | queueId | profiling | lastEnqueued | status | tryAdvance | timestamps | userVisible | ownerId
  | owner => cases h; exact .inl rfl

theorem cell_setCell (system : System World) (event : Event) (cell : EventCell) (other : Event) :
    (system.setCell event cell).cell other = system.cell other ∨
      other.ordinal = event.ordinal ∧ (system.setCell event cell).cell other = cell := by
  by_cases ho : other.ordinal = event.ordinal
  · rcases Nat.lt_or_ge event.ordinal system.cells.length with hlt | hge
    · exact .inr ⟨ho, by simp [System.cell, System.setCell, ho, hlt]⟩
    · refine .inl ?_
      rw [System.setCell, List.set_eq_of_length_le hge]
  · exact .inl (System.cell_setCell_of_ne ho system cell)

theorem holder_setCell_self {system : System World} {event : Event}
    (hevent : event.ordinal < system.cells.length) (cell : EventCell) :
    holder (system.setCell event cell) event.ordinal = cell.holder :=
  congrArg EventCell.holder (System.cell_setCell_self hevent cell)

theorem holder_setCell_of_ne (system : System World) (event : Event) (cell : EventCell) {o : Nat}
    (ho : o ≠ event.ordinal) : holder (system.setCell event cell) o = holder system o :=
  congrArg EventCell.holder
    (System.cell_setCell_of_ne (show (⟨o, event.flags⟩ : Event).ordinal ≠ _ from ho) system cell)

theorem lt_of_holder {system : System World} {o : Nat} {t : ThreadId}
    (h : holder system o = some t) : o < system.cells.length := by
  rcases Nat.lt_or_ge o system.cells.length with hlt | hge
  · exact hlt
  · simp [holder, List.getElem?_eq_none hge] at h

theorem table_setTable (system : System World) (ref : TableRef) (table : Table) (other : TableRef) :
    (system.setTable ref table).table other = system.table other ∨
      other = ref ∧ (system.setTable ref table).table other = table := by
  by_cases ho : other = ref
  · rcases Nat.lt_or_ge ref system.tables.length with hlt | hge
    · exact .inr ⟨ho, by simp [ho, System.table, System.setTable, hlt]⟩
    · refine .inl ?_
      rw [System.setTable, List.set_eq_of_length_le hge]
  · exact .inl (by simp [System.table, System.setTable, List.getElem?_set_ne (Ne.symm ho)])

theorem mem_of_find? {table : Table} {handle : EventHandle} {event : Event}
    (h : table.find? handle = some event) : (handle, event) ∈ table.events := by
  obtain ⟨before, after, hsplit, -⟩ := List.lookup_eq_some_iff.1 h
  simp [hsplit]

theorem mem_of_insert? {table filled : Table} {event : Event} {handle : EventHandle}
    (h : table.insert? event = some (handle, filled)) {entry : EventHandle × Event}
    (hentry : entry ∈ filled.events) : entry ∈ table.events ∨ entry = (handle, event) := by
  rw [Table.insert?] at h
  split at h
  · cases h
  · cases h
    rcases List.mem_append.1 hentry with hold | hnew
    · exact .inl hold
    · exact .inr (List.mem_singleton.1 hnew)

/-- A new event is as one that does not exist: unbound and not held. -/
theorem getD_cells_concat (cells : List EventCell) (o : Nat) :
    (cells ++ [({} : EventCell)]).getD o {} = cells.getD o {} := by
  rcases Nat.lt_trichotomy o cells.length with hlt | rfl | hgt
  · simp [List.getElem?_append_left hlt]
  · simp
  · simp [List.getElem?_append_right (Nat.le_of_lt hgt), List.getElem?_eq_none (Nat.le_of_lt hgt),
      Nat.sub_ne_zero_of_lt hgt]

namespace Serves

variable {t : ThreadId} {request : Request} {answer : request.Answer}
  {system system' : System World} {held : List Nat}

/-- What a request permitted to a thread does to the world is something that callers do. -/
theorem world (h : Serves t system request answer system')
    (hpermitted : request.Permitted held (extent system)) :
    system'.engine = system.engine ∨ system.engine.Called system'.engine := by
  cases h with
  | engine h =>
    rcases World.state_of_serve h with hstate | ⟨q, marker, rfl, hstate⟩
    · exact .inl hstate
    · refine .inr ?_
      rw [show _ = (system.engine.enqueueMarker q marker).state from hstate]
      exact .submit _ rfl hpermitted nofun
  | newEvent | lock | unlock | binding | peek | bind | full | register | unknown | unregister | find
  | size | log => exact .inl rfl

theorem cells_le (h : Serves t system request answer system') :
    system.cells.length ≤ system'.cells.length := by
  cases h with
  | newEvent => simp
  | lock | unlock | bind => simp [System.setCell]
  | engine | binding | peek | full | register | unknown | unregister | find | size | log =>
    exact Nat.le_refl _

theorem extent_le (h : Serves t system request answer system')
    (hpermitted : request.Permitted held (extent system)) : extent system ≤ extent system' := by
  refine ⟨?_, h.cells_le⟩
  rcases h.world hpermitted with heq | hcalled
  · exact Nat.le_of_eq (congrArg (fun w : World => w.commands.length) heq.symm)
  · exact (World.Grows.of_called hcalled).commands_le

/-- What an answer names exists. -/
theorem names (h : Serves t system request answer system') (hworld : system.engine.Sound)
    (hfiled : Filed system) : request.Names (extent system') answer := by
  cases h with
  | @engine request reply h =>
    cases request with
    | enqueueMarker q marker => cases h; exact fun c hc => World.lt_of_value_submit hc
    | lastEnqueued q =>
      cases h
      intro c hc
      have hlast : (system.engine.accepted q).getLast? = some c := (hworld.newest q).symm.trans hc
      exact (World.mem_accepted.1 (List.mem_of_getLast? hlast)).1
    | queueId | profiling | status | tryAdvance | await | timestamps | userVisible | ownerId
    | owner => trivial
  | newEvent => simp [Request.Names, extent]
  | binding event => exact hfiled.bound event
  | find table handle =>
    intro event hevent
    exact hfiled.listed table _ (mem_of_find? hevent)
  | lock | unlock | peek | bind | full | register | unknown | unregister | size | log => trivial

theorem filed (h : Serves t system request answer system') (hfiled : Filed system)
    (hpermitted : request.Permitted held (extent system)) : Filed system' := by
  have hle := h.extent_le hpermitted
  have hbound : ∀ event, ∀ c ∈ (system.binding event).position?,
      c < system'.engine.commands.length := fun event c hc =>
    Nat.lt_of_lt_of_le (hfiled.bound event c hc) hle.1
  have hlisted : ∀ table, ∀ entry ∈ (system.table table).events,
      entry.2.ordinal < system'.cells.length := fun table entry hentry =>
    Nat.lt_of_lt_of_le (hfiled.listed table entry hentry) hle.2
  -- one cell changes, and its binding still names a command that exists
  have hcell : ∀ event cell, (∀ c ∈ cell.binding.position?, c < system'.engine.commands.length) →
      ∀ other, ∀ c ∈ ((system.setCell event cell).binding other).position?,
        c < system'.engine.commands.length := by
    intro event cell hnew other c hc
    rw [System.binding] at hc
    rcases cell_setCell system event cell other with hsame | ⟨-, hsame⟩
    · rw [hsame] at hc
      exact hbound other c hc
    · rw [hsame] at hc
      exact hnew c hc
  -- one table changes, and its events still exist
  have htable : ∀ ref table, (∀ entry ∈ table.events, entry.2.ordinal < system'.cells.length) →
      ∀ other, ∀ entry ∈ ((system.setTable ref table).table other).events,
        entry.2.ordinal < system'.cells.length := by
    intro ref table hnew other entry hentry
    rcases table_setTable system ref table other with hsame | ⟨-, hsame⟩
    · rw [hsame] at hentry
      exact hlisted other entry hentry
    · rw [hsame] at hentry
      exact hnew entry hentry
  cases h with
  | engine | binding | peek | full | unknown | find | size | log => exact ⟨hbound, hlisted⟩
  | newEvent =>
    refine ⟨fun event c hc => ?_, hlisted⟩
    rw [System.binding, System.cell, getD_cells_concat] at hc
    exact hbound event c hc
  | lock event | unlock event => exact ⟨hcell event _ (hbound event), hlisted⟩
  | bind event binding => exact ⟨hcell event _ hpermitted.2, hlisted⟩
  | @register table event handle filled hinsert =>
    refine ⟨hbound, htable table filled fun entry hentry => ?_⟩
    rcases mem_of_insert? hinsert hentry with hold | rfl
    · exact hlisted table entry hold
    · exact hpermitted
  | unregister table handle =>
    refine ⟨hbound, htable table _ fun entry hentry => ?_⟩
    exact hlisted table entry (List.mem_filter.1 hentry).1

/-- Locks change hands as the requests for them say. -/
theorem holds (h : Serves t system request answer system')
    (hpermitted : request.Permitted held (extent system))
    (hheld : ∀ o, o ∈ held ↔ holder system o = some t) :
    (∀ o, o ∈ request.heldAfter held ↔ holder system' o = some t) ∧
      ∀ u, u ≠ t → ∀ o, holder system' o = some u ↔ holder system o = some u := by
  cases h with
  | engine | binding | peek | full | register | unknown | unregister | find | size | log =>
    exact ⟨hheld, fun _ _ _ => .rfl⟩
  | newEvent =>
    have hsame : ∀ o, holder { system with cells := system.cells ++ [{}] } o = holder system o :=
      fun o => congrArg EventCell.holder (getD_cells_concat _ o)
    exact ⟨fun o => by rw [hsame]; exact hheld o, fun _ _ o => by rw [hsame]⟩
  | bind event binding =>
    have hsame : ∀ o, holder (system.setCell event { system.cell event with binding := binding }) o =
        holder system o := by
      intro o
      by_cases ho : o = event.ordinal
      · subst o
        exact holder_setCell_self (lt_of_holder ((hheld _).1 hpermitted.1)) _
      · exact holder_setCell_of_ne system event _ ho
    exact ⟨fun o => by rw [hsame]; exact hheld o, fun _ _ o => by rw [hsame]⟩
  | lock event hfree =>
    have hself := holder_setCell_self hpermitted.1 { system.cell event with holder := some t }
    have hother := fun o => holder_setCell_of_ne (o := o) system event
      { system.cell event with holder := some t }
    refine ⟨fun o => ?_, fun u hu o => ?_⟩
    · by_cases ho : o = event.ordinal
      · subst o
        simp [Request.heldAfter, hself]
      · simp [Request.heldAfter, hother o ho, ho, hheld]
    · by_cases ho : o = event.ordinal
      · subst o
        simp [hself, hfree, hu.symm]
      · rw [hother o ho]
  | unlock event =>
    have hmine : holder system event.ordinal = some t := (hheld _).1 hpermitted
    have hself := holder_setCell_self (lt_of_holder hmine)
      { system.cell event with holder := none }
    have hother := fun o => holder_setCell_of_ne (o := o) system event
      { system.cell event with holder := none }
    refine ⟨fun o => ?_, fun u hu o => ?_⟩
    · by_cases ho : o = event.ordinal
      · subst o
        simp [Request.heldAfter, hself]
      · simp [Request.heldAfter, hother o ho, ho, hheld]
    · by_cases ho : o = event.ordinal
      · subst o
        simp [hself, hmine, hu.symm]
      · rw [hother o ho]

/-! ## Answers of the queues -/

section Engine

variable {a b : System World} {q : QueueRef} {c : CommandRef}

theorem cells_engine {request : EngineRequest} {answer : (Request.engine request).Answer}
    (h : Serves t a (.engine request) answer b) : b.cells = a.cells := by
  cases h with
  | engine => rfl

theorem profiling {answer : Bool} (h : Serves t a (.engine (.profiling q)) answer b) :
    answer = (a.engine.queue q).profiling := by
  cases h with
  | engine hserve =>
    cases hserve
    rfl

theorem lastEnqueued {answer : Option CommandRef}
    (h : Serves t a (.engine (.lastEnqueued q)) answer b) : answer = (a.engine.queue q).last := by
  cases h with
  | engine hserve =>
    cases hserve
    rfl

theorem status {answer : Status} (h : Serves t a (.engine (.status c)) answer b) :
    answer = a.engine.status c := by
  cases h with
  | engine hserve =>
    cases hserve
    rfl

theorem marker {request : MarkerRequest CommandRef} {answer : Except Failure CommandRef}
    (h : Serves t a (.engine (.enqueueMarker q request)) answer b) :
    answer = (a.engine.enqueueMarker q request).value ∧
      b.engine = (a.engine.enqueueMarker q request).state := by
  cases h with
  | engine hserve =>
    cases hserve
    exact ⟨rfl, rfl⟩

theorem await {answer : Unit} (h : Serves t a (.engine (.await c)) answer b) :
    a.engine.status c = .complete := by
  cases h with
  | engine hserve =>
    rw [World.serve] at hserve
    split at hserve
    next hcomplete => exact hcomplete
    next => cases hserve

theorem timestamps {answer : Option Timestamps}
    (h : Serves t a (.engine (.timestamps c)) answer b) : answer = a.engine.times? c := by
  cases h with
  | engine hserve =>
    cases hserve
    rfl

theorem userVisible {answer : Bool} (h : Serves t a (.engine (.userVisible c)) answer b) :
    answer = decide ((a.engine.command c).kind ≠ .barrier) := by
  cases h with
  | engine hserve =>
    cases hserve
    rfl

theorem tryAdvance {answer : Bool} (h : Serves t a (.engine (.tryAdvance c)) answer b) :
    answer = a.engine.canAdvance (a.engine.command c).queue := by
  cases h with
  | engine hserve =>
    cases hserve
    rfl

theorem owner_eq {answer : Option QueueRef} (h : Serves t a (.engine (.owner c)) answer b) :
    answer = if 0 < (a.engine.queue (a.engine.command c).queue).handles then
      some (a.engine.command c).queue else none := by
  cases h with
  | engine hserve =>
    cases hserve
    rfl

/-- A command's queue is handed out unless it is gone. -/
theorem owner {answer : Option QueueRef} (h : Serves t a (.engine (.owner c)) answer b) :
    (answer = none ∧ (a.engine.queue (a.engine.command c).queue).handles = 0) ∨
      answer = some (a.engine.command c).queue := by
  rw [h.owner_eq]
  split
  next => exact .inr rfl
  next hnone => exact .inl ⟨rfl, Nat.eq_zero_of_not_pos hnone⟩

end Engine

end Serves

end SyncPoint.Host
