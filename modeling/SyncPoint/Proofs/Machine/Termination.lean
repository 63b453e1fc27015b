import Mathlib.Data.DFinsupp.WellFounded
import SyncPoint.Proofs.Host.Dependence
import SyncPoint.Proofs.Machine.Turn

/-!
# Machines come to rest

Without new calls a machine comes to rest: a worker's step leaves less work, and a thread's step
leaves less of its program (`Machine.acc_goesOn`).  What callers set about queues, such as their
gates, stays as it is meanwhile.  At rest with no gate closed every command has run and no thread is
in a call (`Machine.Sound.done_of_rest`): a wait would be answered, and of the threads that wait for
locks the one that waits for the event constructed last waits for a thread that could go on.
-/

namespace SyncPoint.Host

/-! ## What callers set -/

namespace World

/-- What callers set about queues is the same in both worlds. -/
def SameSettings (w w' : World) : Prop :=
  ∀ q, (w'.queue q).handles = (w.queue q).handles ∧
    (w'.queue q).accepting = (w.queue q).accepting ∧ (w'.queue q).paused = (w.queue q).paused

variable {w w' w'' : World} {q : QueueRef}

theorem SameSettings.refl (w : World) : w.SameSettings w :=
  fun _ => ⟨rfl, rfl, rfl⟩

theorem SameSettings.trans (h : w.SameSettings w') (h' : w'.SameSettings w'') :
    w.SameSettings w'' := by
  intro q
  obtain ⟨hhandles, haccepting, hpaused⟩ := h q
  obtain ⟨hhandles', haccepting', hpaused'⟩ := h' q
  exact ⟨hhandles'.trans hhandles, haccepting'.trans haccepting, hpaused'.trans hpaused⟩

theorem SameSettings.of_works (h : w.Works q w') : w.SameSettings w' := by
  -- whatever else changes about a queue, its settings stay as they are
  have hset : ∀ (v : World) (queue : Queue), v.queue = w.queue →
      queue.handles = (w.queue q).handles ∧ queue.accepting = (w.queue q).accepting ∧
        queue.paused = (w.queue q).paused → w.SameSettings (v.setQueue q queue) := by
    intro v queue hsame hqueue r
    rcases v.queue_setQueue_cases q queue r with hr | ⟨rfl, hr⟩
    · rw [hr, hsame]
      exact ⟨rfl, rfl, rfl⟩
    · rw [hr]
      exact hqueue
  cases h with
  | receive | enter | pass => exact hset w _ rfl ⟨rfl, rfl, rfl⟩
  | @act _ _ action =>
    refine hset w _ rfl ?_
    cases action <;> exact ⟨rfl, rfl, rfl⟩
  | start | stop =>
    refine hset _ _ (w.queue_stamp q _) ?_
    rw [queue_stamp]
    exact ⟨rfl, rfl, rfl⟩
  | complete => exact hset _ _ (w.queue_setCommand _ _) ⟨rfl, rfl, rfl⟩

theorem SameSettings.submit (w : World) (command : Command) :
    w.SameSettings (w.submit command).state := by
  cases h : w.takes command.queue with
  | false =>
    rw [state_of_not_takes h]
    exact .refl w
  | true =>
    intro q
    by_cases hq : q = command.queue
    · subst q
      rw [queue_submit_self h]
      exact ⟨rfl, rfl, rfl⟩
    · rw [queue_submit_of_ne h hq]
      exact ⟨rfl, rfl, rfl⟩

theorem Open.of_settings (hopen : w.Open) (h : w.SameSettings w') : w'.Open :=
  fun q _ => (h q).2.2.trans (hopen.paused q)

end World

namespace Machine

variable {s s' : Machine} {t : ThreadId} {l : Happening} {history : History}

/-- A step that begins no call sets nothing about queues. -/
theorem Step.same_settings (hstep : Step s l s') (hcall : ∀ t call, l ≠ .enter t call) :
    s.world.SameSettings s'.world := by
  cases hstep with
  | worker hworks => exact .of_works (World.works_of_step? hworks)
  | enter => exact absurd rfl (hcall _ _)
  | @ask t call request next queues answer system htask hserve =>
    cases serves_of_serve hserve with
    | @engine request reply hreply =>
      rcases World.state_of_serve hreply with hsame | ⟨q, marker, -, hmarker⟩
      · exact hsame.symm ▸ .refl _
      · exact hmarker.symm ▸ .submit _ _
    | _ => exact .refl _

theorem Run.same_settings (hrun : Run s history s')
    (hcall : ∀ l ∈ history, ∀ t call, l ≠ .enter t call) : s.world.SameSettings s'.world := by
  induction hrun with
  | refl => exact .refl _
  | snoc _ hstep ih =>
    have hbefore := ih fun l hl => hcall l (List.mem_append_left _ hl)
    exact hbefore.trans (hstep.same_settings (hcall _ (List.mem_append_right _ List.mem_cons_self)))

theorem Step.keeps_open (hstep : Step s l s') (hcall : ∀ t call, l ≠ .enter t call)
    (hopen : s.world.Open) : s'.world.Open :=
  hopen.of_settings (hstep.same_settings hcall)

theorem Run.keeps_open (hrun : Run s history s')
    (hcall : ∀ l ∈ history, ∀ t call, l ≠ .enter t call) (hopen : s.world.Open) :
    s'.world.Open :=
  hopen.of_settings (hrun.same_settings hcall)

/-! ## Coming to rest -/

/-- Workers alone make no more steps than the workload has. -/
theorem Run.length_le_workload (hrun : Run s history s')
    (hworkers : ∀ l ∈ history, l.thread? = none) :
    history.length + s'.world.workload ≤ s.world.workload := by
  induction hrun with
  | refl => exact Nat.le_of_eq (Nat.zero_add _)
  | @snoc history l s' s'' _ hstep ih =>
    have hbefore := ih fun l hl => hworkers l (List.mem_append_left _ hl)
    cases hstep with
    | @worker q w hworks =>
      have hless : w.workload < s'.world.workload := World.workload_lt_of_step?_eq_some hworks
      have hafter : (s'.withWorld w).world.workload = w.workload := rfl
      simp only [List.length_append, List.length_singleton]
      omega
    | enter | ask => cases hworkers _ (List.mem_append_right _ List.mem_cons_self)

/-- The machine goes on without a new call. -/
def GoesOn (s' s : Machine) : Prop := ∃ l, (∀ t call, l ≠ .enter t call) ∧ Step s l s'

/-- A thread's call after one request of it. -/
inductive Shortens : Option Task → Option Task → Prop
  | ask {call : Call} {request : Request} {next : request.Answer → Program call.Result}
      {queues queues' : List QueueRef} (answer : request.Answer) :
      Shortens (some ⟨call, next answer, queues'⟩) (some ⟨call, .ask request next, queues⟩)

theorem shortens_wf : WellFounded Shortens := by
  refine ⟨fun task => ?_⟩
  cases task with
  | none => exact ⟨_, nofun⟩
  | some task =>
    obtain ⟨call, rest, queues⟩ := task
    induction rest generalizing queues with
    | done value => exact ⟨_, nofun⟩
    | ask request next ih =>
      refine ⟨_, fun task hshort => ?_⟩
      cases hshort with
      | ask answer => exact ih answer _

/-- Only so many threads have made calls. -/
def Bounded (n : Nat) (s : Machine) : Prop := ∀ t, n ≤ t → s.tasks t = none

theorem bounded_of_reachable (h : s.Reachable) : ∃ n, s.Bounded n := by
  obtain ⟨process, history, hrun⟩ := h
  induction hrun with
  | refl => exact ⟨0, fun _ _ => rfl⟩
  | snoc _ hstep ih =>
    obtain ⟨n, hn⟩ := ih
    cases hstep with
    | worker => exact ⟨n, hn⟩
    | @enter t call =>
      refine ⟨max n (t + 1), fun u hu => ?_⟩
      rw [enter, tasks_withTask_of_ne (show u ≠ t by omega)]
      exact hn u (by omega)
    | @ask t call request next queues answer system htask =>
      refine ⟨n, fun u hu => ?_⟩
      have hut : u ≠ t := by
        rintro rfl
        rw [hn u hu] at htask
        cases htask
      rw [tasks_withTask_of_ne hut]
      exact hn u hu

/-- What is left: the calls of the threads first, then the work of the workers. -/
def left (n : Nat) (s : Machine) : ((_ : Fin n) → Option Task) × Nat :=
  (fun t => s.tasks t, s.world.workload)

/-- How what is left shrinks. -/
def Less (n : Nat) :
    (((_ : Fin n) → Option Task) × Nat) → (((_ : Fin n) → Option Task) × Nat) → Prop :=
  Prod.Lex (Pi.Lex (· < ·) fun {_} => Shortens) (· < ·)

theorem less_wf (n : Nat) : WellFounded (Less n) :=
  WellFounded.prod_lex (Pi.Lex.wellFounded (· < ·) fun _ => shortens_wf) Nat.lt_wfRel.wf

theorem GoesOn.less {n : Nat} (h : GoesOn s' s) (hn : s.Bounded n) :
    s'.Bounded n ∧ Less n (s'.left n) (s.left n) := by
  obtain ⟨l, hcall, hstep⟩ := h
  cases hstep with
  | worker hstep => exact ⟨hn, .right _ (World.workload_lt_of_step?_eq_some hstep)⟩
  | enter => exact absurd rfl (hcall _ _)
  | @ask t call request next queues answer system htask =>
    have hlt : t < n := by
      rcases Nat.lt_or_ge t n with hlt | hge
      · exact hlt
      · rw [hn t hge] at htask
        cases htask
    refine ⟨fun u hu => ?_, .left _ _ ⟨⟨t, hlt⟩, fun u hu => ?_, ?_⟩⟩
    · rw [tasks_withTask_of_ne (Nat.ne_of_gt (Nat.lt_of_lt_of_le hlt hu))]
      exact hn u hu
    · exact tasks_withTask_of_ne (Nat.ne_of_lt hu) ..
    · show Shortens (Machine.tasks _ t) (s.tasks t)
      rw [tasks_withTask_self, htask]
      exact .ask answer

/-- No machine goes on for ever without a new call. -/
theorem acc_goesOn (h : s.Reachable) : Acc GoesOn s := by
  obtain ⟨n, hn⟩ := bounded_of_reachable h
  have hall : ∀ x, ∀ s : Machine, s.Bounded n → s.left n = x → Acc GoesOn s := by
    intro x
    induction x using (less_wf n).induction with
    | _ x ih =>
      rintro s hn rfl
      refine ⟨_, fun s' hgoes => ?_⟩
      obtain ⟨hn', hless⟩ := hgoes.less hn
      exact ih _ hless s' hn' rfl
  exact hall _ s hn rfl

/-! ## At rest -/

/-- A request that gets no answer is for a lock that somebody holds, or waits for a command. -/
theorem waits_of_serve_eq_none {system : System World} {request : Request}
    (h : System.serve stillEngine t request system = none) :
    (∃ event u, request = .lock event ∧ holder system event.ordinal = some u) ∨
      ∃ c, request = .engine (.await c) ∧ system.engine.status c ≠ .complete := by
  cases request with
  | engine request =>
    have hserve : system.engine.serve request = none := Option.map_eq_none_iff.1 h
    cases request with
    | await c =>
      rw [World.serve] at hserve
      split at hserve
      next => cases hserve
      next hpending => exact .inr ⟨c, rfl, hpending⟩
    | queueId | profiling | lastEnqueued | enqueueMarker | status | tryAdvance | timestamps
    | userVisible | ownerId | owner => cases hserve
  | lock event =>
    rw [System.serve] at h
    split at h
    next => cases h
    next u hheld => exact .inl ⟨event, u, rfl, hheld⟩
  | peek | register | unregister =>
    rw [System.serve] at h
    split at h <;> cases h
  | newEvent | unlock | binding | bind | find | size | log => cases h

theorem exists_task_of_not_idle (h : ¬ s.Idle t) :
    ∃ call request next queues, s.tasks t = some ⟨call, .ask request next, queues⟩ := by
  unfold Idle at h
  simp only [not_forall, not_not] at h
  obtain ⟨⟨call, rest, queues⟩, htask, hunfinished⟩ := h
  cases rest with
  | done value =>
    obtain ⟨request, next, hask⟩ := hunfinished
    cases hask
  | ask request next => exact ⟨call, request, next, queues, htask⟩

section Rest

variable (h : s.Sound) (hrest : ∀ s', ¬ GoesOn s' s)
  (hcomplete : ∀ c, c < s.world.commands.length → s.world.status c = .complete)
include h hrest hcomplete

/-- Where nobody can go on and every command has run, a thread in a call waits for a lock that
somebody holds. -/
theorem Sound.lock_of_rest {call : Call} {request : Request}
    {next : request.Answer → Program call.Result} {queues : List QueueRef}
    (htask : s.tasks t = some ⟨call, .ask request next, queues⟩) :
    ∃ event u, request = .lock event ∧ holder s.system event.ordinal = some u := by
  obtain ⟨held, -, hconduct⟩ := h.conduct t
  have hpermitted := (hconduct.of_task htask).1
  cases hserve : System.serve stillEngine t request s.system with
  | some reply =>
    obtain ⟨answer, system⟩ := reply
    exact absurd ⟨_, fun _ _ heq => (by cases heq), .ask htask hserve⟩ (hrest _)
  | none =>
    rcases waits_of_serve_eq_none hserve with hlock | ⟨c, rfl, hpending⟩
    · exact hlock
    · exact absurd (hcomplete c hpermitted) hpending

/-- But nobody waits for a lock: whoever holds it would wait for the lock of a later event. -/
theorem Sound.not_lock_of_rest {call : Call} {event : Event} {next : Unit → Program call.Result}
    {queues : List QueueRef} : s.tasks t ≠ some ⟨call, .ask (.lock event) next, queues⟩ := by
  intro htask
  -- by induction on how many events come after
  obtain ⟨k, hk⟩ : ∃ k, s.system.cells.length - event.ordinal = k := ⟨_, rfl⟩
  induction k using Nat.strongRecOn generalizing t call event next queues with
  | _ k ih =>
    obtain ⟨event', u, heq, hholder⟩ := h.lock_of_rest hrest hcomplete htask
    cases heq
    obtain ⟨held, hheld, hconduct⟩ := h.conduct u
    have hmem : event.ordinal ∈ held := (hheld _).2 hholder
    by_cases hidle : s.Idle u
    · rw [hconduct.eq_nil hidle] at hmem
      cases hmem
    · obtain ⟨call', request, next', queues', htask'⟩ := exists_task_of_not_idle hidle
      obtain ⟨event', v, rfl, -⟩ := h.lock_of_rest hrest hcomplete htask'
      obtain ⟨hlt, horder⟩ := (hconduct.of_task htask').1
      have hlater := horder _ hmem
      have hlt' : event'.ordinal < s.system.cells.length := hlt
      exact ih _ (by omega) htask' rfl

/-- Where nobody can go on and every command has run, no thread is in a call. -/
theorem Sound.idle_of_rest (t : ThreadId) : s.Idle t := by
  rcases Classical.em (s.Idle t) with hidle | hbusy
  · exact hidle
  · obtain ⟨call, request, next, queues, htask⟩ := exists_task_of_not_idle hbusy
    obtain ⟨event, u, rfl, -⟩ := h.lock_of_rest hrest hcomplete htask
    exact absurd htask (h.not_lock_of_rest hrest hcomplete)

end Rest

theorem step?_eq_none_of_rest (hrest : ∀ s', ¬ GoesOn s' s) (q : QueueRef) :
    s.world.step? q = none := by
  cases hstep : s.world.step? q with
  | none => rfl
  | some w => exact absurd ⟨_, fun _ _ heq => (by cases heq), .worker hstep⟩ (hrest _)

/-- Where nobody can go on and no gate is closed, everything is done. -/
theorem Sound.done_of_rest (h : s.Sound) (hrest : ∀ s', ¬ GoesOn s' s) (hopen : s.world.Open) :
    (∀ c, c < s.world.commands.length → s.world.status c = .complete) ∧ ∀ t, s.Idle t := by
  have hcomplete : ∀ c, c < s.world.commands.length → s.world.status c = .complete := fun c hc =>
    h.world.complete_of_stuck (step?_eq_none_of_rest hrest) hopen hc
  exact ⟨hcomplete, h.idle_of_rest hrest hcomplete⟩

end Machine

end SyncPoint.Host
