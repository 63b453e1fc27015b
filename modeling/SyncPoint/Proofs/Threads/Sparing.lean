import SyncPoint.Proofs.Threads.Shadowing

/-!
# Going on without a handle

A system in which one event was taken out of its table answers every request like the system in
which it was not, as long as nobody uses the event's handle or counts the table's events, and the
table is not full (`System.serve_without`).  So a run after a handle was destroyed and a run in which
it was not are runs of each other (`Spared.step`, `Spared.step_back`).
-/

namespace SyncPoint

variable {σ : Type}

/-! ## One event less in a table -/

namespace Table

variable {table : Table} {handle other : EventHandle} {event : Event}

/-- The number was given out, and means one event. -/
structure Holds (table : Table) (handle : EventHandle) : Prop where
  issued : handle.number < table.next
  once : (table.events.map (·.1)).count handle = 1

/-- The capacity is freed at once. -/
theorem Holds.size_erase (h : table.Holds handle) :
    (table.erase handle).size + 1 = table.size := by
  rw [← h.once, Table.size, Table.size, Table.erase]
  induction table.events with
  | nil => rfl
  | cons entry rest ih =>
    by_cases heq : entry.1 = handle
    · simp [heq] at ih ⊢
      omega
    · simp [heq] at ih ⊢
      omega

theorem Holds.ne_nextHandle (h : table.Holds handle) : table.nextHandle ≠ handle := by
  rintro rfl
  exact Nat.lt_irrefl _ h.issued

theorem Holds.insert {filled : Table} {number : EventHandle} (h : table.Holds handle)
    (hinsert : table.insert? event = some (number, filled)) : filled.Holds handle := by
  rw [Table.insert?] at hinsert
  split at hinsert <;> cases hinsert
  exact ⟨Nat.lt_succ_of_lt h.issued, by simp [h.once, h.ne_nextHandle]⟩

theorem Holds.erase (h : table.Holds handle) (hne : handle ≠ other) :
    (table.erase other).Holds handle := by
  refine ⟨h.issued, ?_⟩
  have hkeys : (table.erase other).events.map (·.1) =
      (table.events.map (·.1)).filter fun number => number ≠ other := by
    rw [Table.erase, List.filter_map]
    rfl
  rw [hkeys, List.count_filter (by simpa using hne), h.once]

theorem erase_comm (table : Table) (handle other : EventHandle) :
    (table.erase handle).erase other = (table.erase other).erase handle := by
  simp only [erase, List.filter_filter, Bool.and_comm]

/-- There is room for this many events more, and another one. -/
def HasRoom (table : Table) (more : Nat) : Prop :=
  ∀ limit, table.limit = some limit → table.size + more < limit

theorem isFull_eq_false_iff (table : Table) : table.isFull = false ↔ table.HasRoom 0 := by
  cases hlimit : table.limit <;> simp [isFull, HasRoom, hlimit]

/-- Where there is room, an event is put in just as well if the other was taken out. -/
theorem Holds.insert?_erase (h : table.Holds handle) (hroom : table.HasRoom 0) :
    (table.erase handle).insert? event =
      (table.insert? event).map fun filled => (filled.1, filled.2.erase handle) := by
  have hroom' : (table.erase handle).HasRoom 0 := by
    intro limit hlimit
    have := hroom limit hlimit
    have := h.size_erase
    omega
  rw [insert?, insert?, (isFull_eq_false_iff _).2 hroom, (isFull_eq_false_iff _).2 hroom',
    if_neg (by simp), if_neg (by simp)]
  have hne : ¬ (⟨table.next⟩ : EventHandle) = handle := h.ne_nextHandle
  simp [Table.erase, nextHandle, hne]

end Table

namespace System

variable {system : System σ} {ref other : TableRef} {handle : EventHandle} {more : Nat}

/-- The system with an event taken out of a table. -/
def without (system : System σ) (ref : TableRef) (handle : EventHandle) : System σ :=
  system.setTable ref ((system.table ref).erase handle)

theorem table_without_self (href : ref < system.tables.length) (handle : EventHandle) :
    (system.without ref handle).table ref = (system.table ref).erase handle :=
  Host.table_setTable_self href _

theorem table_without_of_ne (system : System σ) (hne : other ≠ ref) (handle : EventHandle) :
    (system.without ref handle).table other = system.table other :=
  Host.table_setTable_of_ne system hne _

/-- A table is filled in again as if the event had not been taken out before. -/
theorem without_setTable_self (href : ref < system.tables.length) (table : Table) :
    (system.without ref handle).setTable ref (table.erase handle) =
      (system.setTable ref table).without ref handle := by
  rw [without, without, Host.table_setTable_self href]
  simp [setTable]

theorem without_setTable_of_ne (hne : other ≠ ref) (table : Table) :
    (system.without ref handle).setTable other table =
      (system.setTable other table).without ref handle := by
  rw [without, without, Host.table_setTable_of_ne system hne.symm]
  simp only [setTable, List.set_comm _ _ hne.symm]

/-- The request neither uses the handle nor counts the events of its table, and does not find the
table full, even if there were `more` events in it. -/
def Spares (ref : TableRef) (handle : EventHandle) (more : Nat) (system : System σ) :
    Request → Prop
  | .find r number | .unregister r number => r = ref → number ≠ handle
  | .register r _ => r = ref → (system.table ref).HasRoom more
  | .size r => r ≠ ref
  | _ => True

/-- A request that spares the handle is answered the same without it. -/
theorem serve_without (engine : Engine σ) (t : ThreadId) {request : Request}
    (href : ref < system.tables.length) (hholds : (system.table ref).Holds handle)
    (hspares : system.Spares ref handle 0 request) :
    serve engine t request (system.without ref handle) =
      (serve engine t request system).map fun reply => (reply.1, reply.2.without ref handle) := by
  cases request with
  | engine request =>
    simp only [serve, Option.map_map]
    rfl
  | newEvent | unlock | binding | bind | log => rfl
  | lock event | peek event =>
    have hcell : (system.without ref handle).cell event = system.cell event := rfl
    rw [serve, serve, hcell]
    cases (system.cell event).holder <;> rfl
  | find r number =>
    by_cases hr : r = ref
    · subst r
      rw [serve, serve, table_without_self href, Table.find?_erase_of_ne _ (hspares rfl)]
      rfl
    · rw [serve, serve, table_without_of_ne _ hr]
      rfl
  | size r =>
    rw [serve, serve, table_without_of_ne _ hspares]
    rfl
  | unregister r number =>
    by_cases hr : r = ref
    · subst r
      rw [serve, serve, table_without_self href, Table.find?_erase_of_ne _ (hspares rfl)]
      cases (system.table ref).find? number with
      | none => rfl
      | some event =>
        simp only [Option.map_some, Table.erase_comm _ handle, without_setTable_self href]
    · rw [serve, serve, table_without_of_ne _ hr]
      cases (system.table r).find? number with
      | none => rfl
      | some event => simp only [Option.map_some, without_setTable_of_ne hr]
  | register r event =>
    by_cases hr : r = ref
    · subst r
      rw [serve, serve, table_without_self href, hholds.insert?_erase (hspares rfl)]
      cases (system.table ref).insert? event with
      | none => rfl
      | some filled => simp only [Option.map_some, without_setTable_self href]
    · rw [serve, serve, table_without_of_ne _ hr]
      cases (system.table r).insert? event with
      | none => rfl
      | some filled => simp only [Option.map_some, without_setTable_of_ne hr]

/-- The number goes on meaning one event. -/
theorem holds_of_serve {engine : Engine σ} {t : ThreadId} {request : Request}
    {answer : request.Answer} {system' : System σ}
    (hholds : (system.table ref).Holds handle) (hspares : system.Spares ref handle more request)
    (hserve : serve engine t request system = some (answer, system')) :
    (system'.table ref).Holds handle := by
  have hacts := Host.acts_of_serve ref hserve
  cases hact : Host.Exchange.act? ref ⟨request, answer⟩ with
  | none =>
    rw [hact] at hacts
    rwa [hacts]
  | some act =>
    rw [hact] at hacts
    generalize system'.table ref = table' at hacts
    cases hacts with
    | put hinsert => exact hholds.insert hinsert
    | refuse | miss | look | size => exact hholds
    | @take number event hfind =>
      refine hholds.erase (Ne.symm ?_)
      cases request with
      | unregister r n =>
        by_cases hr : r = ref
        · have hn : n = number := by
            simp [Host.Exchange.act?, hr] at hact
            exact hact.1
          exact hn ▸ hspares hr
        · simp [Host.Exchange.act?, hr] at hact
      | _ => simp [Host.Exchange.act?] at hact

/-- In `a` the event behind a handle was taken out of its table, and in `b` it is there. -/
structure Reduced (ref : TableRef) (handle : EventHandle) (a b : System σ) : Prop where
  exists_table : ref < b.tables.length
  holds : (b.table ref).Holds handle
  alike : (b.without ref handle).Alike a

namespace Reduced

variable {engine : Engine σ} {t : ThreadId} {request : Request} {answer : request.Answer}
  {a a' b b' : System σ}

theorem of_alike (h : Reduced ref handle a b) (halike : a.Alike a') : Reduced ref handle a' b :=
  ⟨h.exists_table, h.holds, h.alike.trans halike⟩

theorem table_eq (h : Reduced ref handle a b) : a.table ref = (b.table ref).erase handle := by
  obtain ⟨log, rfl⟩ := h.alike
  exact table_without_self h.exists_table handle

theorem engine_eq (h : Reduced ref handle a b) : a.engine = b.engine := by
  obtain ⟨log, rfl⟩ := h.alike
  rfl

/-- The engine went on in both. -/
theorem move (h : Reduced ref handle a b) (state : σ) (entries : List LogEntry) :
    Reduced ref handle { a with engine := state, log := a.log ++ entries }
      { b with engine := state, log := b.log ++ entries } := by
  obtain ⟨log, rfl⟩ := h.alike
  exact ⟨h.exists_table, h.holds, log ++ entries, rfl⟩

theorem of_serve (h : Reduced ref handle a b) (hspares : b.Spares ref handle 0 request)
    (hserve : System.serve engine t request b = some (answer, b'))
    (halike : (b'.without ref handle).Alike a') : Reduced ref handle a' b' :=
  ⟨(Host.length_tables_of_serve hserve).symm ▸ h.exists_table,
    holds_of_serve h.holds hspares hserve, halike⟩

/-- What is answered with the event in its table is answered without it. -/
theorem serve (h : Reduced ref handle a b) (hspares : b.Spares ref handle 0 request)
    (hserve : System.serve engine t request b = some (answer, b')) :
    ∃ a', System.serve engine t request a = some (answer, a') ∧ Reduced ref handle a' b' := by
  obtain ⟨a', hserve', halike⟩ := h.alike.serve (by
    rw [serve_without engine t h.exists_table h.holds hspares, hserve]
    rfl)
  exact ⟨a', hserve', h.of_serve hspares hserve halike⟩

/-- What is answered without the event in its table is answered with it. -/
theorem serve_back (h : Reduced ref handle a b) (hspares : b.Spares ref handle 0 request)
    (hserve : System.serve engine t request a = some (answer, a')) :
    ∃ b', System.serve engine t request b = some (answer, b') ∧ Reduced ref handle a' b' := by
  obtain ⟨without, hserve', halike⟩ := h.alike.symm.serve hserve
  rw [serve_without engine t h.exists_table h.holds hspares] at hserve'
  obtain ⟨⟨answer', b'⟩, hserve'', heq⟩ := Option.map_eq_some_iff.1 hserve'
  cases heq
  exact ⟨b', hserve'', h.of_serve hspares hserve'' halike.symm⟩

end Reduced

end System

namespace Threads

/-! ## Runs -/

/-- A thread writes to the log. -/
def Happening.Writes : Happening σ → Bool
  | ask _ (.log _) _ => true
  | _ => false

/-- What happened but for what threads wrote to the log. -/
def History.deeds (h : History σ) : History σ := h.filter fun l => !l.Writes

theorem History.deeds_append (h h' : History σ) : (h ++ h').deeds = h.deeds ++ h'.deeds :=
  List.filter_append ..

theorem deeds_writes (t : ThreadId) (entries : List LogEntry) :
    (writes t entries : History σ).deeds = [] := by
  simp [History.deeds, writes, Happening.Writes]

/-- The step neither uses the handle nor counts the events of its table, and finds the table with
room for this many events more. -/
def SparesHandle (ref : TableRef) (handle : EventHandle) (more : Nat) (s : State σ) :
    Happening σ → Prop
  | .ask _ request _ => s.system.Spares ref handle more request
  | _ => True

/-- In `a` the handle was destroyed, by thread `t`, which has nothing left to do for that but to
write to the log.  In `b` it was not, and the thread does nothing. -/
structure Spared (ref : TableRef) (handle : EventHandle) (t : ThreadId) (a b : State σ) : Prop where
  system : System.Reduced ref handle a.system b.system
  others : ∀ u, u ≠ t → a.tasks u = b.tasks u
  thread : a.tasks t = b.tasks t ∨
    b.Idle t ∧ ∃ task result, a.tasks t = some task ∧ Shadows task.rest (.done result)

variable {engine : Engine σ} {moves : σ → σ → Prop} {ref : TableRef} {handle : EventHandle}
  {t u : ThreadId} {a a' b b' s s' : State σ} {h : History σ} {l : Happening σ}
  {system system' : System σ}

namespace Spared

/-- What was destroyed is not there, so there is room for one event more. -/
theorem sparesHandle_iff (hspared : Spared ref handle t a b) :
    SparesHandle ref handle 1 a l ↔ SparesHandle ref handle 0 b l := by
  cases l with
  | move | identify | enter => rfl
  | ask u request answer =>
    cases request with
    | register r event =>
      have hsize := hspared.system.holds.size_erase
      refine forall_congr' fun _ => forall_congr' fun limit => ?_
      rw [hspared.system.table_eq]
      refine forall_congr' fun _ => ?_
      omega
    | _ => rfl

/-- A thread goes on alike in both. -/
theorem both (hspared : Spared ref handle t a b)
    (hsystem : System.Reduced ref handle system system') (u : ThreadId) (task : Option Task) :
    Spared ref handle t (a.withTask u task system) (b.withTask u task system') := by
  refine ⟨hsystem, fun v hv => ?_, ?_⟩
  · by_cases hu : v = u
    · rw [hu, State.tasks_withTask_self, State.tasks_withTask_self]
    · rw [State.tasks_withTask_of_ne _ hu, State.tasks_withTask_of_ne _ hu, hspared.others v hv]
  · by_cases hu : t = u
    · left
      rw [hu, State.tasks_withTask_self, State.tasks_withTask_self]
    · rw [State.Idle, State.tasks_withTask_of_ne _ hu, State.tasks_withTask_of_ne _ hu]
      exact hspared.thread

/-- The thread that destroyed the event writes to the log. -/
theorem closing (hspared : Spared ref handle t a b) (halike : a.system.Alike system)
    (hidle : b.Idle t) {task : Task} {result : Except Failure task.Value}
    (hshadows : Shadows task.rest (.done result)) :
    Spared ref handle t (a.withTask t (some task) system) b := by
  refine ⟨hspared.system.of_alike halike, fun u hu => ?_, .inr ⟨hidle, task, result, ?_, hshadows⟩⟩
  · rw [State.tasks_withTask_of_ne _ hu, hspared.others u hu]
  · exact State.tasks_withTask_self _ _ _ _

/-- Where a thread does nothing in `b`, it does nothing in `a` once it has written to the log. -/
theorem exists_idle (hspared : Spared ref handle t a b) (hidle : b.Idle u) :
    ∃ entries a', Run engine moves a (writes t entries) a' ∧ Spared ref handle t a' b ∧
      a'.Idle u := by
  have hsame : a.tasks u = b.tasks u → a.Idle u := by
    intro heq
    rwa [State.Idle, heq]
  by_cases hu : u = t
  · subst hu
    rcases hspared.thread with heq | ⟨-, task, result, htask, hshadows⟩
    · exact ⟨[], a, .refl, hspared, hsame heq⟩
    obtain ⟨entries, rest', log, hlevel, hrun⟩ := hshadows.exists_level htask
    cases hlevel
    refine ⟨entries, _, hrun, hspared.closing ⟨log, rfl⟩ hidle (.done result), ?_⟩
    rw [State.Idle, State.tasks_withTask_self]
    rintro _ ⟨⟩
    exact ⟨result, rfl⟩
  · exact ⟨[], a, .refl, hspared, hsame (hspared.others u hu)⟩

/-- What happens without the destruction happens with it. -/
theorem step (hspared : Spared ref handle t a b) (hspares : SparesHandle ref handle 0 b l)
    (hstep : Step engine moves b l b') :
    ∃ h a', Run engine moves a h a' ∧ h.deeds = History.deeds [l] ∧ Spared ref handle t a' b' := by
  cases hstep with
  | @move state entries hmove =>
    rw [← hspared.system.engine_eq] at hmove
    exact ⟨_, _, (Step.move hmove).run, rfl, hspared.system.move state entries, hspared.others,
      hspared.thread⟩
  | @identify queue id system u hserve =>
    have hqueue : b.system.Spares ref handle 0 (.engine (.queueId queue)) := trivial
    obtain ⟨system', hserve', hsystem⟩ := hspared.system.serve hqueue hserve
    exact ⟨_, _, (Step.identify u hserve').run, rfl, hsystem, hspared.others, hspared.thread⟩
  | @enter u α use hidle =>
    obtain ⟨entries, a₁, hrun, hspared₁, hidle₁⟩ := hspared.exists_idle hidle
    refine ⟨_, _, Run.trans hrun (Step.enter use hidle₁).run, ?_, hspared₁.both hspared₁.system u _⟩
    rw [History.deeds_append, deeds_writes, List.nil_append]
  | @ask u α use request next answer system htask hserve =>
    -- a thread that asks is not done, so it asks the same in the other
    have htask' : a.tasks u = some ⟨α, use, .ask request next⟩ := by
      by_cases hu : u = t
      · subst hu
        rcases hspared.thread with heq | ⟨hidle, -⟩
        · rw [heq, htask]
        · obtain ⟨result, hdone⟩ := hidle _ htask
          cases hdone
      · rw [hspared.others u hu, htask]
    obtain ⟨system', hserve', hsystem⟩ := hspared.system.serve hspares hserve
    exact ⟨_, _, (Step.ask htask' hserve').run, rfl, hspared.both hsystem u _⟩

/-- What happens with the destruction happens without it. -/
theorem step_back (hspared : Spared ref handle t a b) (hspares : SparesHandle ref handle 1 a l)
    (hstep : Step engine moves a l a') :
    ∃ h b', Run engine moves b h b' ∧ h.deeds = History.deeds [l] ∧ Spared ref handle t a' b' := by
  rw [hspared.sparesHandle_iff] at hspares
  cases hstep with
  | @move state entries hmove =>
    rw [hspared.system.engine_eq] at hmove
    exact ⟨_, _, (Step.move hmove).run, rfl, hspared.system.move state entries, hspared.others,
      hspared.thread⟩
  | @identify queue id system u hserve =>
    have hqueue : b.system.Spares ref handle 0 (.engine (.queueId queue)) := trivial
    obtain ⟨system', hserve', hsystem⟩ := hspared.system.serve_back hqueue hserve
    exact ⟨_, _, (Step.identify u hserve').run, rfl, hsystem, hspared.others, hspared.thread⟩
  | @enter u α use hidle =>
    have hidle' : b.Idle u := by
      by_cases hu : u = t
      · subst hu
        rcases hspared.thread with heq | ⟨hidle', -⟩
        · rwa [State.Idle, ← heq]
        · exact hidle'
      · rwa [State.Idle, ← hspared.others u hu]
    exact ⟨_, _, (Step.enter use hidle').run, rfl, hspared.both hspared.system u _⟩
  | @ask u α use request next answer system htask hserve =>
    by_cases hsame : a.tasks u = b.tasks u
    · obtain ⟨system', hserve', hsystem⟩ := hspared.system.serve_back hspares hserve
      exact ⟨_, _, (Step.ask (hsame.symm.trans htask) hserve').run, rfl, hspared.both hsystem u _⟩
    -- the thread that destroyed the event writes that to the log
    · obtain rfl : u = t := by
        by_contra hu
        exact hsame (hspared.others u hu)
      rcases hspared.thread with heq | ⟨hidle, task, result, htask', hshadows⟩
      · exact absurd heq hsame
      rw [htask] at htask'
      cases htask'
      cases hshadows with
      | log entry hnext =>
        cases hserve
        exact ⟨[], b, .refl, rfl, hspared.closing ⟨_, rfl⟩ hidle hnext⟩

end Spared

/-- What each step keeps, a run keeps. -/
theorem RunWithin.matched {R : State σ → State σ → Prop} {within : State σ → Happening σ → Prop}
    (hstep : ∀ {x y l x'}, R x y → within x l → Step engine moves x l x' →
      ∃ h y', Run engine moves y h y' ∧ h.deeds = History.deeds [l] ∧ R x' y')
    (hrun : RunWithin engine moves within a h a') (hrelated : R a b) :
    ∃ h' b', Run engine moves b h' b' ∧ h'.deeds = h.deeds ∧ R a' b' := by
  induction hrun with
  | refl => exact ⟨[], b, .refl, rfl, hrelated⟩
  | snoc _ hwithin hlast ih =>
    obtain ⟨h₁, b₁, hrun₁, hdeeds₁, hrelated₁⟩ := ih
    obtain ⟨h₂, b₂, hrun₂, hdeeds₂, hrelated₂⟩ := hstep hrelated₁ hwithin hlast
    refine ⟨h₁ ++ h₂, b₂, Run.trans hrun₁ hrun₂, ?_, hrelated₂⟩
    rw [History.deeds_append, History.deeds_append, hdeeds₁, hdeeds₂]

/-- A run without the destruction is a run with it. -/
theorem Spared.run (hspared : Spared ref handle t a b)
    (hrun : RunWithin engine moves (SparesHandle ref handle 0) b h b') :
    ∃ h' a', Run engine moves a h' a' ∧ h'.deeds = h.deeds ∧ Spared ref handle t a' b' :=
  hrun.matched (R := fun b a => Spared ref handle t a b) Spared.step hspared

/-- A run with the destruction is a run without it. -/
theorem Spared.run_back (hspared : Spared ref handle t a b)
    (hrun : RunWithin engine moves (SparesHandle ref handle 1) a h a') :
    ∃ h' b', Run engine moves b h' b' ∧ h'.deeds = h.deeds ∧ Spared ref handle t a' b' :=
  hrun.matched (R := Spared ref handle t) Spared.step_back hspared

end Threads

end SyncPoint
