import SyncPoint.Proofs.Machine.Serving

/-!
# What holds in every state

In every state that a machine gets to, its queues are in order, every name that is filed away means
something, and every thread obeys from where it is with the locks that it holds (`Machine.Sound`).
Each step keeps this, whoever makes it (`Machine.Sound.of_step`), and later states only add to
earlier ones (`Machine.Sound.grows`).
-/

namespace SyncPoint.Host

/-! ## The beginning of a call -/

theorem Call.cells_enter (call : Call) (system : System World) :
    (call.enter system).2.cells = system.cells := by
  cases call <;> rfl

/-- What a call does when it begins is something that callers do. -/
theorem Call.world_enter {s : Machine} {call : Call} (hallowed : s.Allows call) :
    (call.enter s.system).2.engine = s.world ∨ s.world.Called (call.enter s.system).2.engine := by
  cases call with
  | newQueue config => exact .inr (.addQueue config (hallowed.numbered config rfl))
  | cloneQueue q => exact .inr (.cloneHandle q)
  | dropQueue q => exact .inr (.dropHandle q)
  | setPaused q paused => exact .inr (.setPaused q paused)
  | shutdown q => exact .inr (.shutdown q)
  | enqueueWork q work => exact .inr (.submit _ rfl nofun (hallowed.droppable q work rfl))
  | enqueueMarker q request => exact .inr (.submit _ rfl hallowed.commands nofun)
  | finish q => exact .inr (.submit _ rfl nofun nofun)
  | _ => exact .inl rfl

theorem Call.events_enter (call : Call) (system : System World) (table : TableRef) :
    ((call.enter system).2.table table).events = (system.table table).events := by
  cases call with
  | newTable limit =>
    show ((system.tables ++ [({ limit := limit } : Table)]).getD table { limit := some 0 }).events =
      (system.tables.getD table { limit := some 0 }).events
    rcases Nat.lt_trichotomy table system.tables.length with hlt | rfl | hgt
    · simp [List.getElem?_append_left hlt]
    · simp
    · simp [List.getElem?_append_right (Nat.le_of_lt hgt),
        List.getElem?_eq_none (Nat.le_of_lt hgt), Nat.sub_ne_zero_of_lt hgt]
  | _ => rfl

namespace Machine

/-! ## The invariant -/

/-- A thread that holds these locks obeys from here on; one that never made a call holds none. -/
def Conducts (s : Machine) (t : ThreadId) (held : List Nat) : Prop :=
  match s.tasks t with
  | none => held = []
  | some task => task.rest.Obeys (fun held _ _ => held = []) held (extent s.system)

/-- What holds in every state that a machine gets to. -/
structure Sound (s : Machine) : Prop where
  world : s.world.Sound
  filed : Filed s.system
  conduct : ∀ t, ∃ held, (∀ o, o ∈ held ↔ holder s.system o = some t) ∧ s.Conducts t held

variable {s s' : Machine} {l : Happening} {t : ThreadId} {held : List Nat}

theorem Conducts.mono (h : s.Conducts t held) (htask : s'.tasks t = s.tasks t)
    (hle : extent s.system ≤ extent s'.system) : s'.Conducts t held := by
  unfold Conducts at h ⊢
  rw [htask]
  cases hs : s.tasks t with
  | none => rw [hs] at h; exact h
  | some task =>
    rw [hs] at h
    exact h.mono (fun _ _ _ _ _ hend => hend) hle

/-- A thread that is in no call holds no lock. -/
theorem Conducts.eq_nil (h : s.Conducts t held) (hidle : s.Idle t) : held = [] := by
  unfold Conducts at h
  cases hs : s.tasks t with
  | none => rw [hs] at h; exact h
  | some task =>
    rw [hs] at h
    cases hrest : task.rest with
    | done value => simp only [hrest] at h; exact h
    | ask request next => exact absurd ⟨request, next, hrest⟩ (hidle task hs)

theorem Conducts.of_task {call : Call} {rest : Program call.Result} {queues : List QueueRef}
    (h : s.Conducts t held) (htask : s.tasks t = some ⟨call, rest, queues⟩) :
    rest.Obeys (fun held _ _ => held = []) held (extent s.system) := by
  unfold Conducts at h
  rw [htask] at h
  exact h

theorem tasks_withTask_self (s : Machine) (t : ThreadId) (task : Task) (system : System World) :
    (s.withTask t task system).tasks t = some task := by
  simp [withTask]

theorem tasks_withTask_of_ne {u : ThreadId} (hu : u ≠ t) (s : Machine) (task : Task)
    (system : System World) : (s.withTask t task system).tasks u = s.tasks u := by
  simp [withTask, hu]

/-! ## Steps -/

/-- A step changes the world as workers do, or as callers do if at all. -/
theorem Sound.world_of_step (h : s.Sound) (hstep : Step s l s') :
    (∃ q, l = .worker q (s.world.queue q).worker ∧ s.world.Works q s'.world) ∨
      (∃ t, l.thread? = some t) ∧ (s'.world = s.world ∨ s.world.Called s'.world) := by
  cases hstep with
  | @worker q w hworks => exact .inl ⟨q, rfl, World.works_of_step? hworks⟩
  | @enter t call _ hallowed => exact .inr ⟨⟨t, rfl⟩, Call.world_enter hallowed⟩
  | @ask t call request next queues answer system htask hserve =>
    obtain ⟨held, -, hconduct⟩ := h.conduct t
    exact .inr ⟨⟨t, rfl⟩, (serves_of_serve hserve).world (hconduct.of_task htask).1⟩

theorem Sound.grows_of_step (h : s.Sound) (hstep : Step s l s') : s.world.Grows s'.world := by
  rcases h.world_of_step hstep with ⟨q, -, hworks⟩ | ⟨-, hsame | hcalled⟩
  · exact .of_works h.world hworks
  · rw [hsame]; exact .refl _
  · exact .of_called hcalled

theorem Sound.of_worker (h : s.Sound) {q : QueueRef} {w : World} (hworks : s.world.Works q w) :
    (s.withWorld w).Sound := by
  have hcommands := (World.Grows.of_works h.world hworks).commands_le
  refine ⟨h.world.of_works hworks, ⟨fun event c hc => ?_, h.filed.listed⟩, fun t => ?_⟩
  · exact Nat.lt_of_lt_of_le (h.filed.bound event c hc) hcommands
  · obtain ⟨held, hheld, hconduct⟩ := h.conduct t
    exact ⟨held, hheld, hconduct.mono rfl ⟨hcommands, Nat.le_refl _⟩⟩

theorem Sound.of_enter (h : s.Sound) {call : Call} (hidle : s.Idle t) (hallowed : s.Allows call) :
    (s.enter t call).Sound := by
  have hcells := Call.cells_enter call s.system
  have hcommands : s.world.commands.length ≤
      (call.enter s.system).2.engine.commands.length := by
    rcases Call.world_enter hallowed with heq | hcalled
    · exact Nat.le_of_eq (congrArg (fun w : World => w.commands.length) heq.symm)
    · exact (World.Grows.of_called hcalled).commands_le
  refine ⟨?_, ⟨fun event c hc => ?_, fun table entry hentry => ?_⟩, fun u => ?_⟩
  · rcases Call.world_enter hallowed with heq | hcalled
    · rw [Machine.world, enter, withTask, heq]; exact h.world
    · exact h.world.of_called hcalled
  · rw [enter, withTask, System.binding, System.cell, hcells] at hc
    exact Nat.lt_of_lt_of_le (h.filed.bound event c hc) hcommands
  · rw [enter, withTask, Call.events_enter] at hentry
    rw [enter, withTask, hcells]
    exact h.filed.listed table entry hentry
  · obtain ⟨held, hheld, hconduct⟩ := h.conduct u
    refine ⟨held, fun o => ?_, ?_⟩
    · rw [enter, withTask, holder, hcells]
      exact hheld o
    · by_cases hu : u = t
      · subst u
        rw [hconduct.eq_nil hidle, Conducts, enter, tasks_withTask_self]
        exact Call.enter_obeys hallowed
      · refine hconduct.mono (tasks_withTask_of_ne hu ..) ⟨hcommands, Nat.le_of_eq ?_⟩
        exact congrArg List.length hcells.symm

theorem Sound.of_ask (h : s.Sound) {call : Call} {request : Request}
    {next : request.Answer → Program call.Result} {queues queues' : List QueueRef}
    {answer : request.Answer} {system : System World}
    (htask : s.tasks t = some ⟨call, .ask request next, queues⟩)
    (hserves : Serves t s.system request answer system) :
    (s.withTask t ⟨call, next answer, queues'⟩ system).Sound := by
  obtain ⟨held, hheld, hconduct⟩ := h.conduct t
  obtain ⟨hpermitted, hnext⟩ := hconduct.of_task htask
  have hle := hserves.extent_le hpermitted
  obtain ⟨hmine, hothers⟩ := hserves.holds hpermitted hheld
  refine ⟨?_, hserves.filed h.filed hpermitted, fun u => ?_⟩
  · rcases hserves.world hpermitted with heq | hcalled
    · rw [Machine.world, withTask, heq]; exact h.world
    · exact h.world.of_called hcalled
  · by_cases hu : u = t
    · subst u
      refine ⟨request.heldAfter held, hmine, ?_⟩
      rw [Conducts, tasks_withTask_self]
      exact hnext answer _ hle (hserves.names h.world h.filed)
    · obtain ⟨held', hheld', hconduct'⟩ := h.conduct u
      refine ⟨held', fun o => (hheld' o).trans (hothers u hu o).symm, ?_⟩
      exact hconduct'.mono (tasks_withTask_of_ne hu ..) hle

/-- Every step keeps the invariant. -/
theorem Sound.of_step (h : s.Sound) (hstep : Step s l s') : s'.Sound := by
  cases hstep with
  | worker hworks => exact h.of_worker (World.works_of_step? hworks)
  | enter hidle hallowed => exact h.of_enter hidle hallowed
  | ask htask hserve => exact h.of_ask htask (serves_of_serve hserve)

theorem Sound.start (process : Nat → UInt64) : (start process).Sound :=
  ⟨World.Sound.empty process, ⟨nofun, nofun⟩, fun _ => ⟨[], fun _ => ⟨nofun, nofun⟩, rfl⟩⟩

/-! ## Runs -/

theorem Sound.of_run (h : s.Sound) {history : History} (hrun : Run s history s') : s'.Sound := by
  induction hrun with
  | refl => exact h
  | snoc _ hstep ih => exact ih.of_step hstep

theorem Sound.grows (h : s.Sound) {history : History} (hrun : Run s history s') :
    s.world.Grows s'.world := by
  induction hrun with
  | refl => exact .refl _
  | snoc hrun hstep ih => exact ih.trans ((h.of_run hrun).grows_of_step hstep)

theorem sound_of_reachable (h : s.Reachable) : s.Sound := by
  obtain ⟨process, history, hrun⟩ := h
  exact (Sound.start process).of_run hrun

end Machine

end SyncPoint.Host
