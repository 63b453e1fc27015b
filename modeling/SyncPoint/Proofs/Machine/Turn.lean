import SyncPoint.Proofs.Machine.Sound

/-!
# Calls among other calls

Between two requests of a thread anything may happen, except that the cells of events whose locks
the thread holds stay as they are (`Meanwhile`).  `Program.Ensures` is what holds at the end of a
program whatever happens meanwhile; it is proved along the program alone, and a call of a machine
that returns has ensured it (`Machine.Performs.ensures`).

An invariant may be assumed of the states in which the program's requests are answered.  It stands
for what is known of the history, such as that nobody bound an event.
-/

namespace SyncPoint.Host

/-- `b` is a later state of `a`. -/
structure Later (a b : System World) : Prop where
  world : b.engine.Sound
  filed : Filed b
  grows : a.engine.Grows b.engine
  cells_le : a.cells.length ≤ b.cells.length

/-- `b` is a later state of `a` for a thread whose events nobody has touched. -/
structure Meanwhile (t : ThreadId) (a b : System World) : Prop extends Later a b where
  kept : ∀ event, holder a event.ordinal = some t → b.cell event = a.cell event

variable {t : ThreadId} {a b c : System World}

theorem Later.trans (h : Later a b) (h' : Later b c) : Later a c :=
  ⟨h'.world, h'.filed, h.grows.trans h'.grows, Nat.le_trans h.cells_le h'.cells_le⟩

theorem Meanwhile.refl (hworld : a.engine.Sound) (hfiled : Filed a) : Meanwhile t a a :=
  ⟨⟨hworld, hfiled, .refl _, Nat.le_refl _⟩, fun _ _ => rfl⟩

theorem Meanwhile.holder (h : Meanwhile t a b) {event : Event}
    (hheld : holder a event.ordinal = some t) : holder b event.ordinal = some t := by
  rw [← hheld]
  exact congrArg EventCell.holder (h.kept event hheld)

theorem Meanwhile.binding (h : Meanwhile t a b) {event : Event}
    (hheld : Host.holder a event.ordinal = some t) : b.binding event = a.binding event :=
  congrArg EventCell.binding (h.kept event hheld)

theorem Meanwhile.trans (h : Meanwhile t a b) (h' : Meanwhile t b c) : Meanwhile t a c :=
  ⟨h.toLater.trans h'.toLater, fun event hheld =>
    (h'.kept event (h.holder hheld)).trans (h.kept event hheld)⟩

/-- A permitted request touches no cell of an event whose lock another thread holds. -/
theorem Serves.kept {u : ThreadId} {request : Request} {answer : request.Answer} {held : List Nat}
    (h : Serves u a request answer b) (hpermitted : request.Permitted held (extent a))
    (hheld : ∀ o, o ∈ held ↔ Host.holder a o = some u) (hu : u ≠ t) (event : Event)
    (hevent : Host.holder a event.ordinal = some t) : b.cell event = a.cell event := by
  cases h with
  | engine | binding | peek | full | register | unknown | unregister | find | size | log => rfl
  | newEvent => exact getD_cells_concat _ _
  | lock other hfree =>
    refine System.cell_setCell_of_ne (fun heq => ?_) _ _
    rw [heq, hfree] at hevent
    cases hevent
  | unlock other =>
    refine System.cell_setCell_of_ne (fun heq => hu ?_) _ _
    rw [heq, (hheld _).1 hpermitted] at hevent
    exact Option.some.inj hevent
  | bind other =>
    refine System.cell_setCell_of_ne (fun heq => hu ?_) _ _
    rw [heq, (hheld _).1 hpermitted.1] at hevent
    exact Option.some.inj hevent

/-- A request of the queues touches no cell. -/
theorem Serves.meanwhile {u : ThreadId} {request : EngineRequest}
    {answer : (Request.engine request).Answer} (h : Serves u a (.engine request) answer b)
    (hlater : Later a b) : Meanwhile t a b :=
  ⟨hlater, fun event _ => congrArg (fun cells => cells.getD event.ordinal {}) h.cells_engine⟩

/-- A lock that is taken was free, so it is none of those that the thread held. -/
theorem Serves.meanwhile_lock {event : Event} {answer : Unit}
    (h : Serves t a (.lock event) answer b) (hlater : Later a b) : Meanwhile t a b := by
  refine ⟨hlater, fun other hheld => ?_⟩
  cases h with
  | lock _ hfree =>
    refine System.cell_setCell_of_ne (fun heq => ?_) _ _
    rw [heq, hfree] at hheld
    cases hheld

/-! ## What a program ensures -/

section Ensures

variable {α β : Type} {inv : System World → Prop}

/-- `post` holds of the result and of the state in which the program has it, whatever others do
between its requests, if `inv` holds whenever one is answered. -/
def Ensures (t : ThreadId) (inv : System World → Prop) (post : System World → α → Prop) :
    Program α → System World → Prop
  | .done value, system => post system value
  | .ask request next, system => ∀ asked answer system', Meanwhile t system asked → inv asked →
      Serves t asked request answer system' → Later asked system' →
        Ensures t inv post (next answer) system'

variable {post : System World → α → Prop} {mid : System World → β → Prop}

theorem Ensures.andThen {program : Program β} {next : β → Program α} {system : System World}
    (h : Ensures t inv mid program system)
    (hnext : ∀ system' value, mid system' value → Ensures t inv post (next value) system') :
    Ensures t inv post (program.andThen next) system := by
  induction program generalizing system with
  | done value => exact hnext system value h
  | ask request rest ih =>
    intro asked answer system' hmeanwhile hinv hserves hlater
    exact ih answer (h asked answer system' hmeanwhile hinv hserves hlater)

theorem Ensures.imp {program : Program α} {system : System World}
    (post' : System World → α → Prop) (h : Ensures t inv post' program system)
    (hpost : ∀ system' value, post' system' value → post system' value) :
    Ensures t inv post program system := by
  rw [← program.andThen_done]
  exact h.andThen hpost

theorem Ensures.and {post' : System World → α → Prop} {program : Program α}
    {system : System World} (h : Ensures t inv post program system)
    (h' : Ensures t inv post' program system) :
    Ensures t inv (fun system value => post system value ∧ post' system value) program system := by
  induction program generalizing system with
  | done value => exact ⟨h, h'⟩
  | ask request next ih =>
    intro asked answer system' hmeanwhile hasked hserves hlater
    exact ih answer (h asked answer system' hmeanwhile hasked hserves hlater)
      (h' asked answer system' hmeanwhile hasked hserves hlater)

theorem ensures_true (program : Program α) (system : System World) :
    Ensures t inv (fun _ _ => True) program system := by
  induction program generalizing system with
  | done value => trivial
  | ask request next ih =>
    intro asked answer system' _ _ _ _
    exact ih answer system'

/-- Others may go on before the program does. -/
theorem Ensures.meanwhile {request : Request} {next : request.Answer → Program α}
    (h : Ensures t inv post (.ask request next) a) (hmeanwhile : Meanwhile t a b) :
    Ensures t inv post (.ask request next) b :=
  fun asked answer system' hlater => h asked answer system' (hmeanwhile.trans hlater)

/-- A request of the engine is answered by the world as it is found. -/
theorem ensures_engine {request : EngineRequest} {next : request.Answer → Program α}
    {system : System World}
    (h : ∀ asked reply system', Meanwhile t system asked → Meanwhile t asked system' →
      asked.engine.serve request = some reply → system'.engine = reply.state →
        Ensures t inv post (next reply.value) system') :
    Ensures t inv post ((Program.engine request).andThen next) system := by
  intro asked answer system' hmeanwhile _ hserves hlater
  cases hserves with
  | engine hserve => exact h asked _ _ hmeanwhile ⟨hlater, fun _ _ => rfl⟩ hserve rfl

/-- A program may be one request of the engine. -/
theorem ensures_request {request : EngineRequest} {post : System World → request.Answer → Prop}
    {system : System World}
    (h : ∀ asked reply system', Meanwhile t system asked → Meanwhile t asked system' →
      asked.engine.serve request = some reply → system'.engine = reply.state →
        post system' reply.value) :
    Ensures t inv post (Program.engine request) system := by
  rw [← Program.andThen_done (Program.engine request)]
  exact ensures_engine h

/-- The binding of an event is read as it is found. -/
theorem ensures_binding {event : Event} {next : Binding → Program α} {system : System World}
    (h : ∀ asked, Meanwhile t system asked → inv asked →
      Ensures t inv post (next (asked.binding event)) asked) :
    Ensures t inv post ((Program.request (.binding event)).andThen next) system := by
  intro asked answer system' hmeanwhile hinv hserves _
  cases hserves
  exact h asked hmeanwhile hinv

theorem ensures_log {entry : LogEntry} {next : Unit → Program α} {system : System World}
    (h : ∀ system', Meanwhile t system system' → Ensures t inv post (next ()) system') :
    Ensures t inv post ((Program.log entry).andThen next) system := by
  intro asked answer system' hmeanwhile _ hserves hlater
  cases hserves
  exact h _ (hmeanwhile.trans ⟨hlater, fun _ _ => rfl⟩)

/-- Between taking the lock of an event and giving it back, the event's cell is the thread's own, and
so are the cells of the events whose locks it held before. -/
theorem ensures_locking_kept {event : Event} {body : Program α} {system : System World}
    (hevent : event.ordinal < system.cells.length)
    (hbody : ∀ locked, Meanwhile t system locked → holder locked event.ordinal = some t →
      Ensures t inv (fun system' value => holder system' event.ordinal = some t ∧
        ∀ system'', Later system' system'' → system''.binding event = system'.binding event →
          (∀ other, other.ordinal ≠ event.ordinal → holder system' other.ordinal = some t →
            system''.cell other = system'.cell other) → post system'' value) body locked) :
    Ensures t inv post (event.locking body) system := by
  intro asked answer locked hmeanwhile _ hserves hlater
  have hkept := hmeanwhile.trans (hserves.meanwhile_lock hlater)
  cases hserves with
  | lock _ hfree =>
    have hlt := Nat.lt_of_lt_of_le hevent hmeanwhile.cells_le
    show Ensures t inv post (body.andThen _) _
    refine (hbody _ hkept (holder_setCell_self hlt _)).andThen fun system' value hend => ?_
    intro asked' answer' system'' hmeanwhile' _ hserves' hlater'
    cases hserves'
    refine hend.2 _ (hmeanwhile'.toLater.trans hlater') ?_ ?_
    · rw [← hmeanwhile'.binding hend.1]
      rcases cell_setCell asked' event { asked'.cell event with holder := none } event with
        hsame | ⟨-, hsame⟩
      · exact congrArg EventCell.binding hsame
      · rw [System.binding, hsame]
        rfl
    · intro other hne hheld
      rw [System.cell_setCell_of_ne hne]
      exact hmeanwhile'.kept other hheld

/-- Between taking the lock of an event and giving it back, the event's cell is the thread's own.
What is then reached has to hold in all later states in which the event is bound as before. -/
theorem ensures_locking {event : Event} {body : Program α} {system : System World}
    (hevent : event.ordinal < system.cells.length)
    (hbody : ∀ locked, Later system locked → holder locked event.ordinal = some t →
      Ensures t inv (fun system' value => holder system' event.ordinal = some t ∧
        ∀ system'', Later system' system'' → system''.binding event = system'.binding event →
          post system'' value) body locked) :
    Ensures t inv post (event.locking body) system := by
  refine ensures_locking_kept hevent fun locked hlocked hheld => ?_
  refine (hbody locked hlocked.toLater hheld).imp _ fun system' value hend => ⟨hend.1, ?_⟩
  intro system'' hlater hbinding _
  exact hend.2 system'' hlater hbinding

end Ensures

/-! ## Calls of a machine -/

namespace Machine

variable {s s' : Machine} {l : Happening} {history : History} {call : Call}

theorem Run.trans {s'' : Machine} {history' : History} (h : Run s history s')
    (h' : Run s' history' s'') : Run s (history ++ history') s'' := by
  induction h' with
  | refl => rw [List.append_nil]; exact h
  | snoc _ hstep ih => rw [← List.append_assoc]; exact ih.snoc hstep

theorem Step.run (h : Step s l s') : Run s [l] s' := Run.refl.snoc h

theorem Performs.run {value : call.Result} (h : Performs t call s history value s') :
    Run s history s' := by
  induction h with
  | done => exact .refl
  | step _ hstep _ ih => exact hstep.run.trans ih

theorem Returns.run {value : call.Result} (h : Returns t call s history value s') :
    Run s history s' := by
  obtain ⟨rest, rfl, hstep, hrest⟩ := h
  exact hstep.run.trans hrest.run

/-- A call that has its result from the beginning returns at once. -/
theorem Returns.at_once {value value' : call.Result} (h : Returns t call s history value s')
    (hdone : (call.enter s.system).1 = .done value') :
    history = [.enter t call] ∧ value = value' ∧ s' = s.enter t call := by
  obtain ⟨rest, rfl, -, hrest⟩ := h
  have htask : (s.enter t call).tasks t = some ⟨call, .done value', call.queues⟩ := by
    rw [← hdone]
    exact tasks_withTask_self ..
  cases hrest with
  | done hreturned =>
    cases htask.symm.trans hreturned
    exact ⟨rfl, rfl, rfl⟩
  | step hbusy =>
    obtain ⟨task, hunfinished, -, request, next, hrest⟩ := hbusy
    cases htask.symm.trans hunfinished
    cases hrest

/-- A step of somebody else leaves a thread's call and its events' cells alone. -/
theorem Sound.meanwhile (h : s.Sound) (hstep : Step s l s') (hother : l.thread? ≠ some t) :
    s'.tasks t = s.tasks t ∧ Meanwhile t s.system s'.system := by
  have hsound := h.of_step hstep
  have hgrows := h.grows_of_step hstep
  cases hstep with
  | worker => exact ⟨rfl, ⟨hsound.world, hsound.filed, hgrows, Nat.le_refl _⟩, fun _ _ => rfl⟩
  | @enter u call hidle hallowed =>
    have hu : t ≠ u := fun heq => hother (congrArg some heq.symm)
    have hcells := Call.cells_enter call s.system
    refine ⟨tasks_withTask_of_ne hu .., ⟨hsound.world, hsound.filed, hgrows, ?_⟩, fun event _ => ?_⟩
    · exact Nat.le_of_eq (congrArg List.length hcells.symm)
    · exact congrArg (fun cells => cells.getD event.ordinal {}) hcells
  | @ask u call request next queues answer system htask hserve =>
    have hu : t ≠ u := fun heq => hother (congrArg some heq.symm)
    have hserves := serves_of_serve hserve
    obtain ⟨held, hheld, hconduct⟩ := h.conduct u
    refine ⟨tasks_withTask_of_ne hu .., ⟨hsound.world, hsound.filed, hgrows, hserves.cells_le⟩, ?_⟩
    exact fun event => hserves.kept (hconduct.of_task htask).1 hheld hu.symm event

/-- A thread in a call goes on with what it asks next. -/
theorem eq_ask_of_step {request : Request}
    {next : request.Answer → Program call.Result} {queues : List QueueRef}
    (hstep : Step s l s') (hl : l.thread? = some t)
    (htask : s.tasks t = some ⟨call, .ask request next, queues⟩) : l = .ask t request := by
  cases hstep with
  | worker => cases hl
  | enter hidle =>
    cases hl
    exact absurd ⟨request, next, rfl⟩ (hidle _ htask)
  | ask htask' =>
    cases hl
    rw [htask] at htask'
    cases htask'
    rfl

/-- A call that has a result has ensured what its program ensures. -/
theorem Performs.ensures {value : call.Result} (h : Performs t call s history value s')
    (hsound : s.Sound) {inv : System World → Prop} {post : System World → call.Result → Prop}
    (hinv : ∀ before after x, history = before ++ after → Run s before x → inv x.system)
    {rest : Program call.Result} {queues : List QueueRef}
    (htask : s.tasks t = some ⟨call, rest, queues⟩)
    (hensures : Ensures t inv post rest s.system) : post s'.system value := by
  induction h generalizing rest queues with
  | done hdone =>
    rw [htask] at hdone
    cases hdone
    exact hensures
  | @step s s₁ s₂ l history value hbusy hstep hrest ih =>
    have hinv' : ∀ before after x, history = before ++ after → Run s₁ before x → inv x.system :=
      fun before after x hsplit hrun =>
        hinv (l :: before) after x (by rw [hsplit]; rfl) (hstep.run.trans hrun)
    have hsound' := hsound.of_step hstep
    obtain ⟨request, next, rfl⟩ : ∃ request next, rest = .ask request next := by
      obtain ⟨task, htask', -, hunfinished⟩ := hbusy
      rw [htask] at htask'
      cases htask'
      exact hunfinished
    by_cases hmine : l.thread? = some t
    · obtain rfl := eq_ask_of_step hstep hmine htask
      cases hstep with
      | @ask _ call' _ next' queues' answer system htask' hserve =>
        rw [htask] at htask'
        cases htask'
        refine ih hsound' hinv' (tasks_withTask_self ..) ?_
        exact hensures _ answer _ (.refl hsound.world hsound.filed)
          (hinv [] _ s rfl .refl) (serves_of_serve hserve)
          ⟨hsound'.world, hsound'.filed, hsound.grows_of_step (.ask htask hserve),
            (serves_of_serve hserve).cells_le⟩
    · obtain ⟨hsame, hmeanwhile⟩ := hsound.meanwhile hstep hmine
      exact ih hsound' hinv' (hsame.trans htask) (hensures.meanwhile hmeanwhile)

theorem Returns.allows {value : call.Result} (h : Returns t call s history value s') :
    s.Idle t ∧ s.Allows call := by
  obtain ⟨rest, -, hstep, -⟩ := h
  cases hstep with
  | enter hidle hallowed => exact ⟨hidle, hallowed⟩

/-- A call that returned has ensured what its program ensures. -/
theorem Returns.ensures {value : call.Result} (h : Returns t call s history value s')
    (hsound : s.Sound) (inv : System World → Prop) {post : System World → call.Result → Prop}
    (hinv : ∀ before after x, history = before ++ after → Run s before x → inv x.system)
    (hensures : Ensures t inv post (call.enter s.system).1 (call.enter s.system).2) :
    post s'.system value := by
  obtain ⟨rest, rfl, hstep, hrest⟩ := h
  refine hrest.ensures (hsound.of_step hstep) (fun before after x hsplit hrun => ?_)
    (tasks_withTask_self ..) hensures
  exact hinv (.enter t call :: before) after x (by rw [hsplit]; rfl) (hstep.run.trans hrun)

end Machine

end SyncPoint.Host
