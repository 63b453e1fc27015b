import SyncPoint.Proofs.Machine.Handles
import SyncPoint.Proofs.Machine.Replay

/-!
# Handles that are given back while calls go on

A queue is there as long as there is a handle of it, and nobody can tell how many there are.  So a
handle that is given back before the last one is may as well be given back later
(`Machine.Run.drop_later`).

A call has handles of the queues that it uses: it names them by handles that its caller keeps for as
long, or was handed them out.  So whatever is given back while it goes on, the last handle is not,
and all comes about just so if it is given back when the call is over
(`Machine.Run.drop_later_of_inUse`).  That is why no run is told in which the last handle of a queue
is given back while a call uses it (`Machine.Allows.unused`).
-/

namespace SyncPoint.Host

/-- What becomes of queue `r` when a handle of queue `q` is given back. -/
def Queue.release (q r : QueueRef) (queue : Queue) : Queue :=
  { queue with handles := if r = q then queue.handles - 1 else queue.handles }

/-- The same answer, where a handle has been given back. -/
def replyReleased {α : Type} (q : QueueRef) (reply : Reply World α) : Reply World α :=
  { reply with state := reply.state.dropHandle q }

namespace World

variable {w : World} {q r : QueueRef}

/-! ## What is looked at -/

theorem queue_dropHandle (w : World) (q r : QueueRef) :
    (w.dropHandle q).queue r = (w.queue r).release q r := by
  by_cases hr : r = q
  · subst r
    rcases Nat.lt_or_ge q w.queues.length with hq | hq
    · rw [dropHandle, w.queue_setQueue_self hq, Queue.release, if_pos rfl]
    · rw [dropHandle, setQueue, List.set_eq_of_length_le hq, w.queue_of_le hq, Queue.release,
        if_pos rfl]
      rfl
  · rw [dropHandle, w.queue_setQueue_of_ne hr, Queue.release, if_neg hr]

/-- Nothing but the number of its handles changes of a queue. -/
theorem read_dropHandle {α : Type} (read : Queue → α)
    (hread : ∀ queue handles, read { queue with handles := handles } = read queue)
    (w : World) (q r : QueueRef) : read ((w.dropHandle q).queue r) = read (w.queue r) := by
  rw [queue_dropHandle]
  exact hread ..

/-- A queue of which there is another handle is still there. -/
theorem handles_dropHandle_pos (hmore : 1 < (w.queue q).handles) :
    0 < ((w.dropHandle q).queue r).handles ↔ 0 < (w.queue r).handles := by
  rw [queue_dropHandle, Queue.release]
  by_cases hr : r = q
  · subst r
    simp only [if_true]
    omega
  · simp only [hr, if_false]

theorem canAdvance_dropHandle (hmore : 1 < (w.queue q).handles) (r : QueueRef) :
    (w.dropHandle q).canAdvance r = w.canAdvance r := by
  have haccepting := w.read_dropHandle Queue.accepting (fun _ _ => rfl) q r
  rw [canAdvance, canAdvance, haccepting, decide_eq_decide.2 (handles_dropHandle_pos hmore)]

/-! ## What changes -/

theorem setQueue_dropHandle (w : World) (q r : QueueRef) (queue : Queue) :
    (w.dropHandle q).setQueue r (queue.release q r) = (w.setQueue r queue).dropHandle q := by
  by_cases hr : r = q
  · subst r
    rcases Nat.lt_or_ge q w.queues.length with hq | hq
    · rw [dropHandle, dropHandle, w.queue_setQueue_self hq]
      simp [setQueue, Queue.release]
    · simp [dropHandle, setQueue, List.set_eq_of_length_le hq]
  · rw [dropHandle, dropHandle, w.queue_setQueue_of_ne (Ne.symm hr), Queue.release, if_neg hr]
    simp [setQueue, List.set_comm _ _ (Ne.symm hr)]

theorem setWorker_dropHandle (w : World) (q r : QueueRef) (place : Worker) :
    (w.dropHandle q).setWorker r place = (w.setWorker r place).dropHandle q := by
  rw [setWorker, queue_dropHandle]
  exact w.setQueue_dropHandle q r { w.queue r with worker := place }

theorem setCommand_dropHandle (w : World) (q : QueueRef) (c : CommandRef) (command : Command) :
    (w.dropHandle q).setCommand c command = (w.setCommand c command).dropHandle q := rfl

theorem readClock_dropHandle (w : World) (q r : QueueRef) :
    (w.dropHandle q).readClock r = ((w.readClock r).1, (w.readClock r).2.dropHandle q) := by
  have hclocks : (w.dropHandle q).clocks = w.clocks := rfl
  have hclock := w.read_dropHandle Queue.clock (fun _ _ => rfl) q r
  rw [readClock, readClock, hclocks, hclock]
  split <;> rfl

theorem stamp_dropHandle (w : World) (q r : QueueRef) (timed : Bool) :
    (w.dropHandle q).stamp r timed = ((w.stamp r timed).1, (w.stamp r timed).2.dropHandle q) := by
  cases timed with
  | false => rfl
  | true => rw [stamp, stamp, readClock_dropHandle]

/-- Workers do not look at handles. -/
theorem advance?_dropHandle (w : World) (q r : QueueRef) :
    (w.dropHandle q).advance? r = (w.advance? r).map fun w' => w'.dropHandle q := by
  have hworker := w.read_dropHandle Queue.worker (fun _ _ => rfl) q r
  have hstatus : (w.dropHandle q).status = w.status := rfl
  rw [advance?, advance?, hworker]
  cases hplace : (w.queue r).worker with
  | idle =>
    have hinbox := w.read_dropHandle Queue.inbox (fun _ _ => rfl) q r
    simp only [hinbox]
    cases (w.queue r).inbox with
    | nil => rfl
    | cons c rest =>
      rw [queue_dropHandle]
      exact congrArg some (w.setQueue_dropHandle q r
        { w.queue r with inbox := rest, worker := .atGate c })
  | atGate c =>
    have hpaused := w.read_dropHandle Queue.paused (fun _ _ => rfl) q r
    simp only [hpaused]
    split
    · rfl
    · exact congrArg some (w.setWorker_dropHandle q r _)
  | waiting c remaining =>
    cases remaining with
    | cons d rest =>
      simp only [hstatus]
      split
      · exact congrArg some (w.setWorker_dropHandle q r _)
      · rfl
    | nil =>
      simp only [stamp_dropHandle]
      exact congrArg some (setWorker_dropHandle _ q r _)
  | running c start remaining =>
    cases remaining with
    | nil =>
      simp only [stamp_dropHandle]
      exact congrArg some (setWorker_dropHandle _ q r _)
    | cons action rest =>
      have hact : { (w.dropHandle q).afterAction ((w.dropHandle q).queue r) action with
          worker := .running c start (remainingAfter action rest) } =
            Queue.release q r { w.afterAction (w.queue r) action with
              worker := .running c start (remainingAfter action rest) } := by
        cases action with
        | push | panic =>
          rw [queue_dropHandle]
          rfl
        | see other =>
          rw [afterAction, queue_dropHandle, queue_dropHandle]
          rfl
      simp only [hact]
      exact congrArg some (w.setQueue_dropHandle q r _)
  | finishing c times =>
    simp only [setCommand_dropHandle]
    exact congrArg some (setWorker_dropHandle _ q r _)

theorem step?_dropHandle (w : World) (q r : QueueRef) :
    (w.dropHandle q).step? r = (w.step? r).map fun w' => w'.dropHandle q := by
  rw [step?, step?, w.read_dropHandle Queue.alive (fun _ _ => rfl) q r]
  split
  · exact w.advance?_dropHandle q r
  · rfl

/-- Neither does whoever hands over a command. -/
theorem submit_dropHandle (w : World) (q : QueueRef) (command : Command) :
    (w.dropHandle q).submit command = replyReleased q (w.submit command) := by
  have haccepting' := w.read_dropHandle Queue.accepting (fun _ _ => rfl) q command.queue
  have halive' := w.read_dropHandle Queue.alive (fun _ _ => rfl) q command.queue
  cases haccepting : (w.queue command.queue).accepting with
  | false =>
    rw [submit_of_not_accepting haccepting, submit_of_not_accepting (haccepting'.trans haccepting)]
    rfl
  | true =>
    cases halive : (w.queue command.queue).alive with
    | false =>
      rw [submit_of_not_alive haccepting halive,
        submit_of_not_alive (haccepting'.trans haccepting) (halive'.trans halive)]
      rfl
    | true =>
      have htakes : w.takes command.queue = true := (takes_eq halive).trans haccepting
      have htakes' : (w.dropHandle q).takes command.queue = true :=
        (takes_eq (halive'.trans halive)).trans (haccepting'.trans haccepting)
      have hstate := w.setQueue_dropHandle q command.queue { w.queue command.queue with
        inbox := (w.queue command.queue).inbox ++ [w.commands.length]
        last := some w.commands.length }
      rw [submit_of_takes htakes, submit_of_takes htakes', queue_dropHandle, replyReleased]
      exact congrArg (fun v : World => ({
        value := .ok w.commands.length
        state := { v with commands := w.commands ++ [command] }
        log := [.commandEnqueued (w.queue command.queue).id command.kind command.timed]
        } : Reply World (Except Failure CommandRef))) hstate

theorem profiling_dropHandle (w : World) (q r : QueueRef) :
    ((w.dropHandle q).queue r).profiling = (w.queue r).profiling :=
  w.read_dropHandle Queue.profiling (fun _ _ => rfl) q r

/-- Requests are answered alike while there is another handle. -/
theorem serve_dropHandle (hmore : 1 < (w.queue q).handles) (request : EngineRequest) :
    (w.dropHandle q).serve request = (w.serve request).map (replyReleased q) := by
  have hcommand : (w.dropHandle q).command = w.command := rfl
  cases request with
  | enqueueMarker r marker =>
    rw [serve, serve, enqueueMarker, enqueueMarker, profiling_dropHandle, submit_dropHandle]
    rfl
  | await c =>
    rw [serve, serve, show (w.dropHandle q).status = w.status from rfl]
    split <;> rfl
  | tryAdvance c =>
    rw [serve, serve, hcommand, canAdvance_dropHandle hmore]
    rfl
  | owner c =>
    have hpositive := handles_dropHandle_pos hmore (r := (w.command c).queue)
    simp only [serve, hcommand, hpositive]
    rfl
  | queueId | profiling | lastEnqueued | status | timestamps | userVisible | ownerId =>
    simp only [serve, hcommand, queue_dropHandle]
    rfl

/-! ## What callers do -/

theorem addQueue_dropHandle (hq : q < w.queues.length) (config : QueueConfig) :
    (w.dropHandle q).addQueue config =
      ((w.addQueue config).1, (w.addQueue config).2.dropHandle q) := by
  have hold := w.queue_addQueue_of_lt config hq
  rw [dropHandle.eq_def (w.addQueue config).2, hold]
  cases hclock : config.clock <;>
    simp [addQueue, addClock, hclock, dropHandle, setQueue, List.set_append_left _ _ hq]

theorem cloneHandle_dropHandle (hmore : 1 < (w.queue q).handles) (r : QueueRef) :
    (w.dropHandle q).cloneHandle r = (w.cloneHandle r).dropHandle q := by
  rw [cloneHandle, cloneHandle, ← setQueue_dropHandle, queue_dropHandle]
  congr 1
  by_cases hr : r = q
  · subst r
    simp only [Queue.release, if_true]
    congr 1
    omega
  · simp only [Queue.release, hr, if_false]

theorem dropHandle_comm (w : World) (q r : QueueRef) :
    (w.dropHandle q).dropHandle r = (w.dropHandle r).dropHandle q := by
  rw [dropHandle.eq_def _ r, dropHandle.eq_def w r, ← setQueue_dropHandle, queue_dropHandle]
  congr 1
  by_cases hr : r = q <;> simp [Queue.release, hr]

theorem setPaused_dropHandle (w : World) (q r : QueueRef) (paused : Bool) :
    (w.dropHandle q).setPaused r paused = (w.setPaused r paused).dropHandle q := by
  rw [setPaused, setPaused, ← setQueue_dropHandle, queue_dropHandle]
  rfl

theorem shutdown_dropHandle (w : World) (q r : QueueRef) :
    (w.dropHandle q).shutdown r = replyReleased q (w.shutdown r) := by
  rw [shutdown, shutdown, replyReleased, ← setQueue_dropHandle, queue_dropHandle]
  rfl

theorem enqueueWork_dropHandle (w : World) (q r : QueueRef) (work : List Action) :
    (w.dropHandle q).enqueueWork r work = replyReleased q (w.enqueueWork r work) := by
  rw [enqueueWork, enqueueWork, profiling_dropHandle, submit_dropHandle]

theorem enqueueMarker_dropHandle (w : World) (q r : QueueRef)
    (request : MarkerRequest CommandRef) :
    (w.dropHandle q).enqueueMarker r request = replyReleased q (w.enqueueMarker r request) := by
  rw [enqueueMarker, enqueueMarker, profiling_dropHandle, submit_dropHandle]

theorem enqueueBarrier_dropHandle (w : World) (q r : QueueRef) :
    (w.dropHandle q).enqueueBarrier r = replyReleased q (w.enqueueBarrier r) := by
  rw [enqueueBarrier, enqueueBarrier, profiling_dropHandle, submit_dropHandle]

end World

/-- The system in which a handle of the queue has been given back. -/
def released (system : System World) (q : QueueRef) : System World :=
  { system with engine := system.engine.dropHandle q }

section System

variable {system : System World} {q : QueueRef} (hmore : 1 < (system.engine.queue q).handles)
include hmore

theorem serve_released (t : ThreadId) (request : Request) :
    System.serve stillEngine t request (released system q) =
      (System.serve stillEngine t request system).map
        fun reply => (reply.1, released reply.2 q) := by
  cases request with
  | engine request =>
    have hserve : stillEngine.serve request (released system q).engine =
        (stillEngine.serve request system.engine).map (replyReleased q) :=
      World.serve_dropHandle hmore request
    rw [System.serve, System.serve, hserve]
    cases stillEngine.serve request system.engine <;> rfl
  | lock event | peek event =>
    have hcell : (released system q).cell event = system.cell event := rfl
    rw [System.serve, System.serve, hcell]
    split <;> rfl
  | register ref | unregister ref =>
    have htable : (released system q).table ref = system.table ref := rfl
    rw [System.serve, System.serve, htable]
    split <;> rfl
  | newEvent | unlock | binding | bind | find | size | log => rfl

/-- What a call does when it begins, and what is then left of it, is the same. -/
theorem Call.enter_released (call : Call) :
    call.enter (released system q) = ((call.enter system).1, released (call.enter system).2 q) := by
  have hengine : (released system q).engine = system.engine.dropHandle q := rfl
  have hq : q < system.engine.queues.length := by
    refine Nat.lt_of_not_le fun hle => ?_
    rw [system.engine.queue_of_le hle] at hmore
    cases hmore
  cases call with
  | newQueue | cloneQueue | dropQueue | setPaused | shutdown | enqueueWork | enqueueMarker
  | finish =>
    simp only [Call.enter, hengine, World.addQueue_dropHandle hq,
      World.cloneHandle_dropHandle hmore, system.engine.dropHandle_comm q,
      World.setPaused_dropHandle, World.shutdown_dropHandle, World.enqueueWork_dropHandle,
      World.enqueueMarker_dropHandle, World.enqueueBarrier_dropHandle]
    rfl
  | _ => rfl

end System

namespace Machine

variable {s x y : Machine} {l : Happening} {h : History} {t u : ThreadId} {q r : QueueRef}

theorem withTask_comm (htu : t ≠ u) (s : Machine) (task task' : Task)
    (system system' : System World) :
    (s.withTask t task system).withTask u task' system' =
      (s.withTask u task' system).withTask t task system' := by
  unfold withTask
  congr 1
  funext v
  by_cases ht : v = t <;> by_cases hu : v = u <;> simp_all

/-- A queue is in use wherever the same calls go on. -/
theorem InUse.of_tasks (huse : s.InUse q) (htasks : ∀ v task, s.tasks v = some task →
    task.Unfinished → x.tasks v = some task) : x.InUse q := by
  obtain ⟨v, task, htask, hunfinished, hq⟩ := huse
  exact ⟨v, task, htasks v task htask hunfinished, hunfinished, hq⟩

/-- A handle that is not the last can be given back at any time. -/
theorem step_dropQueue (hidle : s.Idle u) (hhandles : 0 < (s.world.queue q).handles)
    (hunused : (s.world.queue q).handles = 1 → ¬ s.InUse q) :
    Step s (.enter u (.dropQueue q)) (s.enter u (.dropQueue q)) := by
  refine .enter hidle ⟨?_, nofun, nofun, nofun, nofun, ?_, nofun⟩
  · intro r hr
    rw [List.mem_singleton.1 hr]
    exact hhandles
  · rintro _ ⟨⟩
    exact hunused

/-- A handle that leaves another one was not the last. -/
theorem Step.more_of_dropQueue (hdrop : Step s (.enter u (.dropQueue q)) x)
    (hkept : 0 < (x.world.queue q).handles) : 1 < (s.world.queue q).handles := by
  cases hdrop with
  | enter hidle hallowed =>
    change 0 < ((s.world.dropHandle q).queue q).handles at hkept
    rw [World.queue_dropHandle, Queue.release, if_pos rfl] at hkept
    exact Nat.lt_of_sub_pos hkept

/-- A call that can be made when another handle has been given back can be made before that. -/
theorem allows_of_released {call : Call} (hidle : s.Idle u) (hmore : 1 < (s.world.queue q).handles)
    (h : (s.enter u (.dropQueue q)).Allows call) : s.Allows call where
  queues r hr := (World.handles_dropHandle_pos hmore).1 (h.queues r hr)
  commands := h.commands
  events := h.events
  tables := h.tables
  numbered config hconfig := by
    have hnumbered := h.numbered config hconfig
    rwa [show (s.enter u (.dropQueue q)).world = s.world.dropHandle q from rfl,
      World.dropHandle, World.length_queues_setQueue] at hnumbered
  unused r hcall hone huse := by
    have hr : r ≠ q := by
      rintro rfl
      exact absurd hone (Nat.ne_of_gt hmore)
    refine h.unused r hcall ?_ (huse.of_tasks fun v task htask hunfinished => ?_)
    · show ((s.world.dropHandle q).queue r).handles = 1
      rw [World.queue_dropHandle, Queue.release, if_neg hr]
      exact hone
    · refine (tasks_withTask_of_ne ?_ ..).trans htask
      rintro rfl
      exact hidle task htask hunfinished
  droppable := h.droppable

/-- When a call has begun, the last handle is not in use if it was not when the other one had been
given back. -/
theorem unused_of_enter {call : Call} (hidle : s.Idle u) (hmore : 1 < (s.world.queue q).handles)
    (hallowed : (s.enter u (.dropQueue q)).Allows call)
    (hone : ((s.enter t call).world.queue q).handles = 1) : ¬ (s.enter t call).InUse q := by
  by_cases hcall : call = .dropQueue q
  · subst call
    intro huse
    refine hallowed.unused q rfl hone (huse.of_tasks fun v task htask hunfinished => ?_)
    have hvt : v ≠ t := by
      rintro rfl
      cases (tasks_withTask_self ..).symm.trans htask
      obtain ⟨request, next, hrest⟩ := hunfinished
      cases hrest
    rw [Machine.enter, tasks_withTask_of_ne hvt] at htask
    refine (tasks_withTask_of_ne ?_ ..).trans htask
    rintro rfl
    exact hidle task htask hunfinished
  · have hcalled := Call.called_enter s.system call (lt_of_handles (Nat.lt_of_succ_lt hmore))
    exact absurd hone (Nat.ne_of_gt (Nat.lt_of_lt_of_le hmore (hcalled.le_handles hcall)))

/-- A handle that is given back before a step, and is not the last one, may as well be given back
after it. -/
theorem Step.drop_later (hdrop : Step s (.enter u (.dropQueue q)) x)
    (hmore : 1 < (s.world.queue q).handles) (hstep : Step x l y) (hother : l.thread? ≠ some u) :
    ∃ x', Step s l x' ∧ Step x' (.enter u (.dropQueue q)) y := by
  have hengine : 1 < (s.system.engine.queue q).handles := hmore
  cases hdrop with
  | enter hidle hallowed =>
    have htasks : ∀ v, v ≠ u → (s.enter u (.dropQueue q)).tasks v = s.tasks v :=
      fun v hv => tasks_withTask_of_ne hv ..
    cases hstep with
    | @worker r w hstep =>
      have hworker : ((s.enter u (.dropQueue q)).world.queue r).worker =
          (s.world.queue r).worker :=
        s.world.read_dropHandle Queue.worker (fun _ _ => rfl) q r
      change (s.world.dropHandle q).step? r = some w at hstep
      rw [World.step?_dropHandle] at hstep
      obtain ⟨w', hw', rfl⟩ := Option.map_eq_some_iff.1 hstep
      have hhandles := (World.SameSettings.of_works (World.works_of_step? hw') q).1
      rw [hworker]
      refine ⟨s.withWorld w', .worker hw', step_dropQueue (s := s.withWorld w') hidle ?_ ?_⟩
      · exact hhandles ▸ Nat.lt_of_succ_lt hmore
      · exact fun hone => absurd (hhandles.symm.trans hone) (Nat.ne_of_gt hmore)
    | @ask t call request next queues answer system htask hserve =>
      have htu : t ≠ u := fun heq => hother (congrArg some heq)
      rw [htasks t htu] at htask
      change System.serve stillEngine t request (released s.system q) = _ at hserve
      rw [serve_released hengine] at hserve
      obtain ⟨⟨answer', system'⟩, hserve', heq⟩ := Option.map_eq_some_iff.1 hserve
      cases heq
      have hask := Step.ask htask hserve'
      have hhandles := (hask.same_settings nofun q).1
      refine ⟨_, hask, ?_⟩
      rw [Machine.enter, withTask_comm htu.symm]
      refine step_dropQueue ?_ ?_ ?_
      · intro task htask'
        rw [tasks_withTask_of_ne htu.symm] at htask'
        exact hidle task htask'
      · exact hhandles ▸ Nat.lt_of_succ_lt hmore
      · exact fun hone => absurd (hhandles.symm.trans hone) (Nat.ne_of_gt hmore)
    | @enter t call hidle' hallowed' =>
      have htu : t ≠ u := fun heq => hother (congrArg some heq)
      have hallowed'' : s.Allows call := allows_of_released hidle hmore hallowed'
      have henter : Step s (.enter t call) (s.enter t call) := by
        refine .enter (fun task htask => hidle' task ?_) hallowed''
        rwa [htasks t htu]
      refine ⟨_, henter, ?_⟩
      have hlater : (s.enter u (.dropQueue q)).enter t call =
          (s.enter t call).enter u (.dropQueue q) := by
        have hcall : (s.enter u (.dropQueue q)).enter t call =
            (s.enter u (.dropQueue q)).withTask t
              ⟨call, (call.enter (released s.system q)).1, call.queues⟩
              (call.enter (released s.system q)).2 := rfl
        rw [hcall, call.enter_released hengine, Machine.enter, withTask_comm htu.symm]
        rfl
      rw [hlater]
      have hpositive : 0 < ((s.enter t call).world.queue q).handles := by
        have hcalled := Call.called_enter s.system call (lt_of_handles (Nat.lt_of_succ_lt hmore))
        exact Nat.lt_of_succ_lt_succ (Nat.lt_of_lt_of_le hmore hcalled.le_succ_handles)
      refine step_dropQueue ?_ hpositive (unused_of_enter hidle hmore hallowed')
      intro task htask
      rw [Machine.enter, tasks_withTask_of_ne htu.symm] at htask
      exact hidle task htask

/-- A handle that is given back along a run may as well be given back at its end, if it is not the
last one meanwhile and its thread makes no other call. -/
theorem Run.drop_later (hdrop : Step s (.enter u (.dropQueue q)) x) (hrun : Run x h y)
    (hothers : ∀ l ∈ h, l.thread? ≠ some u)
    (hkept : ∀ before after z, h = before ++ after → after ≠ [] → Run x before z →
      0 < (z.world.queue q).handles) :
    ∃ x', Run s h x' ∧ Step x' (.enter u (.dropQueue q)) y := by
  induction hrun with
  | refl => exact ⟨s, .refl, hdrop⟩
  | @snoc h l z y hbefore hstep ih =>
    obtain ⟨z', hrun', hdrop'⟩ := ih (fun l hl => hothers l (List.mem_append_left _ hl))
      fun before after z heq hafter hz => hkept before (after ++ [l]) z
        (by rw [heq, List.append_assoc]) (List.append_ne_nil_of_left_ne_nil hafter _) hz
    have hpositive := hkept h [l] z rfl (List.cons_ne_nil _ _) hbefore
    obtain ⟨y', hstep', hlater⟩ := hdrop'.drop_later (hdrop'.more_of_dropQueue hpositive) hstep
      (hothers l (List.mem_append_right _ (List.mem_singleton.2 rfl)))
    exact ⟨y', .snoc hrun' hstep', hlater⟩

/-- So is a handle of a queue that calls use all along. -/
theorem Run.drop_later_of_inUse (hs : s.Reachable) (hdrop : Step s (.enter u (.dropQueue q)) x)
    (hrun : Run x h y) (hothers : ∀ l ∈ h, l.thread? ≠ some u)
    (huse : ∀ before after z, h = before ++ after → after ≠ [] → Run x before z → z.InUse q) :
    ∃ x', Run s h x' ∧ Step x' (.enter u (.dropQueue q)) y := by
  refine hrun.drop_later hdrop hothers fun before after z heq hafter hz => ?_
  exact handles_of_inUse ((hs.run hdrop.run).run hz) (huse before after z heq hafter hz)

end Machine

end SyncPoint.Host
