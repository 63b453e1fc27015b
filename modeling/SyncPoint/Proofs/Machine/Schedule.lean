import SyncPoint.Proofs.Machine.Turn

/-!
# Schedules

A schedule says who goes on in turn: a worker makes a step, or a thread makes a whole call that
nobody interrupts.  Following one is a computation, and what it leads to is a run of the machine
(`Machine.run_of_follow`), in which a call that is made returns (`Machine.returns_of_make`).  The
result of such a call is the one that its program has when it runs on its own (`perform_eq_run`).

Where threads are to meet inside of calls, a schedule names single steps instead (`Machine.play`).
-/

namespace SyncPoint.Host

/-- Lets a thread go on alone until its program has a result: the result, the steps, the queues of
which it then has handles, and the system. There is none if a request is not answered. -/
def perform {α : Type} (t : ThreadId) :
    Program α → List QueueRef → System World →
      Option (α × History × List QueueRef × System World)
  | .done value, queues, system => some (value, [], queues, system)
  | .ask request next, queues, system =>
    match System.serve stillEngine t request system with
    | none => none
    | some (answer, system) =>
      (perform t (next answer) (queues ++ handlesIn request answer) system).map
        fun (value, history, rest) => (value, .ask t request :: history, rest)

/-- A program that goes on alone has the result that it has when it runs. -/
theorem perform_eq_run {α : Type} (t : ThreadId) (program : Program α) (queues : List QueueRef)
    (system : System World) :
    (perform t program queues system).map (fun (value, _, _, system) => (value, system)) =
      program.run (System.serve stillEngine t) system := by
  induction program generalizing queues system with
  | done value => rfl
  | ask request next ih =>
    rw [perform, Program.run]
    cases System.serve stillEngine t request system with
    | none => rfl
    | some reply =>
      have hrest := ih reply.1 (queues ++ handlesIn request reply.1) reply.2
      simp only [Option.map_map]
      exact hrest

/-- A thread that goes on alone makes all the steps. -/
theorem thread?_of_perform {α : Type} {t : ThreadId} {program : Program α} {value : α}
    {queues queues' : List QueueRef} {system system' : System World} {history : History}
    (h : perform t program queues system = some (value, history, queues', system')) :
    ∀ l ∈ history, l.thread? = some t := by
  induction program generalizing queues system history with
  | done value =>
    cases h
    exact nofun
  | ask request next ih =>
    rw [perform] at h
    cases hserve : System.serve stillEngine t request system with
    | none => simp [hserve] at h
    | some reply =>
      simp only [hserve] at h
      obtain ⟨⟨value', history', rest⟩, hperform, heq⟩ := Option.map_eq_some_iff.1 h
      cases heq
      intro l hl
      rcases List.mem_cons.1 hl with rfl | hl
      · rfl
      · exact ih reply.1 hperform l hl

/-- Who goes on. -/
inductive Turn
  | worker (q : QueueRef)
  | call (t : ThreadId) (call : Call)

namespace Machine

/-- Whether a thread is in no call. -/
def idle (s : Machine) (t : ThreadId) : Bool :=
  match s.tasks t with
  | some ⟨_, .ask _ _, _⟩ => false
  | _ => true

/-- Whether a call can be made, as far as that can be computed: the last handle of a queue is never
dropped. -/
def permits (s : Machine) (call : Call) : Bool :=
  call.queues.all (fun q => decide (0 < (s.world.queue q).handles)) &&
    call.commands.all (fun c => decide (c < s.world.commands.length)) &&
    call.events.all (fun event => decide (event.ordinal < s.system.cells.length)) &&
    call.tables.all (fun table => decide (table < s.system.tables.length)) &&
    match call with
    | .newQueue _ => decide (s.world.queues.length + 1 < UInt64.size)
    | .dropQueue q => decide ((s.world.queue q).handles ≠ 1)
    | .enqueueWork _ work => decide (.panic .explosive ∉ work)
    | _ => true

/-- A call that a thread makes alone: its result, its steps, and the machine after it. -/
def make (s : Machine) (t : ThreadId) (call : Call) : Option (call.Result × History × Machine) :=
  if s.idle t && s.permits call then
    (perform t (call.enter s.system).1 call.queues (call.enter s.system).2).map
      fun (value, history, queues, system) =>
        (value, .enter t call :: history, s.withTask t ⟨call, .done value, queues⟩ system)
  else none

/-- Follows a schedule as long as everybody can go on. -/
def follow : List Turn → Machine → Option (History × Machine)
  | [], s => some ([], s)
  | .worker q :: rest, s =>
    match s.world.step? q with
    | none => none
    | some w => (follow rest (s.withWorld w)).map
        fun (history, s') => (.worker q (s.world.queue q).worker :: history, s')
  | .call t call :: rest, s =>
    match s.make t call with
    | none => none
    | some (_, history, s) => (follow rest s).map
        fun (history', s') => (history ++ history', s')

variable {s s' : Machine} {t : ThreadId} {call : Call} {history : History}

theorem idle_of_idle (h : s.idle t = true) : s.Idle t := by
  rintro ⟨call, rest, queues⟩ htask ⟨request, next, hrest⟩
  cases rest with
  | done value => cases hrest
  | ask => simp [idle, htask] at h

theorem allows_of_permits (h : s.permits call = true) : s.Allows call := by
  unfold permits at h
  simp only [Bool.and_eq_true, List.all_eq_true, decide_eq_true_eq] at h
  obtain ⟨⟨⟨⟨hqueues, hcommands⟩, hevents⟩, htables⟩, hlast⟩ := h
  refine ⟨hqueues, hcommands, hevents, htables, ?_, ?_, ?_⟩
  · rintro config rfl
    simpa using hlast
  · rintro q rfl hone
    simp [hone] at hlast
  · rintro q work rfl
    simpa using hlast

theorem withTask_withTask (s : Machine) (t : ThreadId) (task task' : Task)
    (system system' : System World) :
    (s.withTask t task system).withTask t task' system' = s.withTask t task' system' := by
  unfold withTask
  congr 1
  funext u
  by_cases hu : u = t <;> simp [hu]

theorem performs_of_perform {rest : Program call.Result} {queues queues' : List QueueRef}
    {system system' : System World} {value : call.Result}
    (h : perform t rest queues system = some (value, history, queues', system')) :
    Performs t call (s.withTask t ⟨call, rest, queues⟩ system) history value
      (s.withTask t ⟨call, .done value, queues'⟩ system') := by
  induction rest generalizing history queues system with
  | done result =>
    cases h
    exact .done (tasks_withTask_self ..)
  | ask request next ih =>
    rw [perform] at h
    cases hserve : System.serve stillEngine t request system with
    | none => simp [hserve] at h
    | some reply =>
      obtain ⟨answer, served⟩ := reply
      simp only [hserve] at h
      obtain ⟨⟨value', history', queues'', system''⟩, hperform, heq⟩ := Option.map_eq_some_iff.1 h
      cases heq
      have htask := tasks_withTask_self s t ⟨call, .ask request next, queues⟩ system
      refine .step ⟨_, htask, rfl, request, next, rfl⟩ (.ask htask hserve) ?_
      rw [withTask_withTask]
      exact ih answer hperform

/-- A call that has a result when it runs on its own returns it, if its thread goes on alone. -/
theorem returns_of_run {value : call.Result} {system : System World} (hidle : s.Idle t)
    (hallowed : s.Allows call)
    (hrun : (call.enter s.system).1.run (System.serve stillEngine t) (call.enter s.system).2 =
      some (value, system)) :
    ∃ h s', Returns t call s h value s' ∧ ∀ l ∈ h, l.thread? = some t := by
  rw [← perform_eq_run t (call.enter s.system).1 call.queues] at hrun
  obtain ⟨⟨value', history, queues, system'⟩, hperform, heq⟩ := Option.map_eq_some_iff.1 hrun
  cases heq
  refine ⟨_, _, ⟨history, rfl, .enter hidle hallowed, performs_of_perform hperform⟩, ?_⟩
  intro l hl
  rcases List.mem_cons.1 hl with rfl | hl
  · rfl
  · exact thread?_of_perform hperform l hl

/-- A call that is made returns. -/
theorem returns_of_make {value : call.Result}
    (h : s.make t call = some (value, history, s')) : Returns t call s history value s' := by
  unfold make at h
  split at h
  next hable =>
    rw [Bool.and_eq_true] at hable
    obtain ⟨⟨value', history', queues, system⟩, hperform, heq⟩ := Option.map_eq_some_iff.1 h
    cases heq
    exact ⟨_, rfl, .enter (idle_of_idle hable.1) (allows_of_permits hable.2),
      performs_of_perform hperform⟩
  next => cases h

/-- Following a schedule is a run. -/
theorem run_of_follow {turns : List Turn} (h : follow turns s = some (history, s')) :
    Run s history s' := by
  induction turns generalizing s history with
  | nil =>
    cases h
    exact .refl
  | cons turn rest ih =>
    cases turn with
    | worker q =>
      rw [follow] at h
      cases hstep : s.world.step? q with
      | none => simp [hstep] at h
      | some w =>
        simp only [hstep] at h
        obtain ⟨⟨history', s''⟩, hfollow, heq⟩ := Option.map_eq_some_iff.1 h
        cases heq
        exact (Step.worker hstep).run.trans (ih hfollow)
    | call t call =>
      rw [follow] at h
      cases hmake : s.make t call with
      | none => simp [hmake] at h
      | some made =>
        obtain ⟨value, history', s''⟩ := made
        simp only [hmake] at h
        obtain ⟨⟨history'', s'''⟩, hfollow, heq⟩ := Option.map_eq_some_iff.1 h
        cases heq
        exact (returns_of_make hmake).run.trans (ih hfollow)

/-- The steps that a schedule leads through. -/
def told (turns : List Turn) (s : Machine) : History :=
  ((follow turns s).map (·.1)).getD []

/-- The machine that a schedule leads to. -/
def reached (turns : List Turn) (s : Machine) : Machine :=
  ((follow turns s).map (·.2)).getD s

/-- The steps of a call that is made. -/
def asked (s : Machine) (t : ThreadId) (call : Call) : History :=
  ((s.make t call).map (·.2.1)).getD []

/-- The machine after a call that is made. -/
def made (s : Machine) (t : ThreadId) (call : Call) : Machine :=
  ((s.make t call).map (·.2.2)).getD s

theorem run_reached {turns : List Turn} (h : (follow turns s).isSome) :
    Run s (told turns s) (reached turns s) := by
  obtain ⟨⟨history, s'⟩, hfollow⟩ := Option.isSome_iff_exists.1 h
  have hrun := run_of_follow hfollow
  simpa [told, reached, hfollow] using hrun

theorem returns_made {value : call.Result} (h : (s.make t call).map (·.1) = some value) :
    Returns t call s (s.asked t call) value (s.made t call) := by
  obtain ⟨⟨value', history, s'⟩, hmake, rfl⟩ := Option.map_eq_some_iff.1 h
  have hreturns := returns_of_make hmake
  simpa [asked, made, hmake] using hreturns

/-! ## Step by step -/

/-- Who makes one step: a worker, a thread that begins a call, or one that has a request answered. -/
inductive Beat
  | worker (q : QueueRef)
  | enter (t : ThreadId) (call : Call)
  | ask (t : ThreadId)

/-- One step, if it can be made. -/
def beat (s : Machine) : Beat → Option (Happening × Machine)
  | .worker q => (s.world.step? q).map fun w =>
      (.worker q (s.world.queue q).worker, s.withWorld w)
  | .enter t call =>
    if s.idle t && s.permits call then some (.enter t call, s.enter t call) else none
  | .ask t =>
    match s.tasks t with
    | some ⟨call, .ask request next, queues⟩ =>
      (System.serve stillEngine t request s.system).map fun reply =>
        (.ask t request,
          s.withTask t ⟨call, next reply.1, queues ++ handlesIn request reply.1⟩ reply.2)
    | _ => none

/-- Makes steps as long as they can be made. -/
def play : List Beat → Machine → Option (History × Machine)
  | [], s => some ([], s)
  | b :: rest, s =>
    match s.beat b with
    | none => none
    | some (l, s) => (play rest s).map fun rest => (l :: rest.1, rest.2)

theorem step_of_beat {b : Beat} {l : Happening} (h : s.beat b = some (l, s')) : Step s l s' := by
  cases b with
  | worker q =>
    obtain ⟨w, hstep, heq⟩ := Option.map_eq_some_iff.1 h
    cases heq
    exact .worker hstep
  | enter t call =>
    rw [beat] at h
    split at h
    next hable =>
      rw [Bool.and_eq_true] at hable
      cases h
      exact .enter (idle_of_idle hable.1) (allows_of_permits hable.2)
    next => cases h
  | ask t =>
    rw [beat] at h
    split at h
    next htask =>
      obtain ⟨reply, hserve, heq⟩ := Option.map_eq_some_iff.1 h
      cases heq
      exact .ask htask hserve
    next => cases h

/-- Steps that are made are a run. -/
theorem run_of_play {beats : List Beat} (h : play beats s = some (history, s')) :
    Run s history s' := by
  induction beats generalizing s history with
  | nil =>
    cases h
    exact .refl
  | cons b rest ih =>
    rw [play] at h
    cases hbeat : s.beat b with
    | none => simp [hbeat] at h
    | some made =>
      obtain ⟨l, s₁⟩ := made
      simp only [hbeat] at h
      obtain ⟨⟨history', s''⟩, hplay, heq⟩ := Option.map_eq_some_iff.1 h
      cases heq
      exact (step_of_beat hbeat).run.trans (ih hplay)

/-- The steps that are made. -/
def played (beats : List Beat) (s : Machine) : History :=
  ((play beats s).map (·.1)).getD []

/-- The machine after these steps. -/
def playedTo (beats : List Beat) (s : Machine) : Machine :=
  ((play beats s).map (·.2)).getD s

theorem run_playedTo {beats : List Beat} (h : (play beats s).isSome) :
    Run s (played beats s) (playedTo beats s) := by
  obtain ⟨⟨history, s'⟩, hplay⟩ := Option.isSome_iff_exists.1 h
  have hrun := run_of_play hplay
  simpa [played, playedTo, hplay] using hrun

end Machine

end SyncPoint.Host
