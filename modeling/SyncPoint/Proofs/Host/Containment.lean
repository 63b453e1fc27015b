import SyncPoint.Host.Engine
import SyncPoint.Proofs.Host.Changes

/-!
# Queues whose work does not panic

A world in which panics are contained has, for every piece of work, what comes before its first panic
(`World.contained`), and nothing is reported.  What callers do with it is what they do with the world
itself, and so is what a worker does, but for the one step in which work panics: that step has no
counterpart, and leaves the contained world as it was (`World.contained_of_panicking`).
-/

namespace SyncPoint.Host

/-- Work up to its first panic, which is left out. -/
def beforePanic : List Action → List Action
  | [] => []
  | .panic _ :: _ => []
  | action :: rest => action :: beforePanic rest

/-- The command with work that does the same and returns where this panics. -/
def Command.contained (command : Command) : Command :=
  { command with work := beforePanic command.work }

def Worker.contained : Worker → Worker
  | .running c start remaining => .running c start (beforePanic remaining)
  | place => place

/-- The worker's next action is a panic. -/
def Worker.panicking : Worker → Bool
  | .running _ _ (.panic _ :: _) => true
  | _ => false

/-- What a queue is without its panics, and with work that does not panic. -/
def Queue.contained (queue : Queue) : Queue :=
  { queue with worker := queue.worker.contained, panics := [] }

/-- The world in which all work is work that returns where it panics in this one. -/
def World.contained (w : World) : World :=
  { clocks := w.clocks
    queues := w.queues.map Queue.contained
    commands := w.commands.map Command.contained }

/-- The same answer, in the contained world. -/
def replyContained {α : Type} (reply : Reply World α) : Reply World α :=
  { reply with state := reply.state.contained }

/-- Work that does not panic is left as it is. -/
theorem beforePanic_of_calm {work : List Action} (h : ∀ payload, .panic payload ∉ work) :
    beforePanic work = work := by
  induction work with
  | nil => rfl
  | cons action rest ih =>
    have hrest := ih fun payload hmem => h payload (List.mem_cons_of_mem action hmem)
    cases action with
    | panic payload => exact absurd List.mem_cons_self (h payload)
    | push | see => exact congrArg (List.cons _) hrest

/-- What comes before the first panic is no panic. -/
theorem not_mem_beforePanic (work : List Action) (payload : PanicPayload) :
    .panic payload ∉ beforePanic work := by
  induction work with
  | nil => exact List.not_mem_nil
  | cons action rest ih =>
    cases action with
    | panic => exact List.not_mem_nil
    | push | see => exact List.not_mem_cons_of_ne_of_not_mem nofun ih

theorem beforePanic_cons {action : Action} (h : ∀ payload, action ≠ .panic payload)
    (rest : List Action) : beforePanic (action :: rest) = action :: beforePanic rest := by
  cases action with
  | panic payload => exact absurd rfl (h payload)
  | push | see => rfl

namespace World

variable {w w' : World} {q : QueueRef}

/-! ## What is looked at -/

@[simp] theorem queue_contained (w : World) (q : QueueRef) :
    w.contained.queue q = (w.queue q).contained := by
  rcases Nat.lt_or_ge q w.queues.length with hq | hq
  · simp [queue, contained, hq]
  · rw [w.queue_of_le hq, queue_of_le _ (by simpa [contained] using hq)]
    rfl

@[simp] theorem command_contained (w : World) (c : CommandRef) :
    w.contained.command c = (w.command c).contained := by
  rcases Nat.lt_or_ge c w.commands.length with hc | hc
  · simp [command, contained, hc]
  · rw [w.command_of_le hc, command_of_le _ (by simpa [contained] using hc)]
    rfl

@[simp] theorem length_queues_contained (w : World) :
    w.contained.queues.length = w.queues.length :=
  List.length_map _

@[simp] theorem length_commands_contained (w : World) :
    w.contained.commands.length = w.commands.length :=
  List.length_map _

@[simp] theorem status_contained (w : World) (c : CommandRef) :
    w.contained.status c = w.status c := by
  rw [status, command_contained]
  rfl

@[simp] theorem times?_contained (w : World) (c : CommandRef) :
    w.contained.times? c = w.times? c := by
  rw [times?, command_contained]
  rfl

theorem accepted_contained (w : World) (q : QueueRef) : w.contained.accepted q = w.accepted q := by
  simp [accepted, Command.contained]

@[simp] theorem canAdvance_contained (w : World) (q : QueueRef) :
    w.contained.canAdvance q = w.canAdvance q := by
  simp [canAdvance, Queue.contained]

theorem setQueue_queue (w : World) (q : QueueRef) : w.setQueue q (w.queue q) = w := by
  rcases Nat.lt_or_ge q w.queues.length with hq | hq
  · simp [setQueue, queue, hq]
  · simp [setQueue, List.set_eq_of_length_le hq]

/-! ## What callers do -/

theorem contained_setQueue (w : World) (q : QueueRef) (queue : Queue) :
    (w.setQueue q queue).contained = w.contained.setQueue q queue.contained := by
  simp [contained, setQueue, List.map_set]

theorem contained_setCommand (w : World) (c : CommandRef) (command : Command) :
    (w.setCommand c command).contained = w.contained.setCommand c command.contained := by
  simp [contained, setCommand, List.map_set]

theorem addQueue_contained (w : World) (config : QueueConfig) :
    w.contained.addQueue config = ((w.addQueue config).1, (w.addQueue config).2.contained) := by
  cases hclock : config.clock <;>
    simp [World.addQueue, addClock, hclock, contained, Queue.contained, Worker.contained]

theorem cloneHandle_contained (w : World) (q : QueueRef) :
    w.contained.cloneHandle q = (w.cloneHandle q).contained := by
  rw [cloneHandle, cloneHandle, contained_setQueue, queue_contained]
  rfl

theorem dropHandle_contained (w : World) (q : QueueRef) :
    w.contained.dropHandle q = (w.dropHandle q).contained := by
  rw [dropHandle, dropHandle, contained_setQueue, queue_contained]
  rfl

theorem setPaused_contained (w : World) (q : QueueRef) (paused : Bool) :
    w.contained.setPaused q paused = (w.setPaused q paused).contained := by
  rw [setPaused, setPaused, contained_setQueue, queue_contained]
  rfl

theorem shutdown_contained (w : World) (q : QueueRef) :
    w.contained.shutdown q = replyContained (w.shutdown q) := by
  rw [shutdown, shutdown, replyContained, contained_setQueue, queue_contained]
  rfl

/-- A queue takes work that returns exactly where it takes work that panics. -/
theorem submit_contained (w : World) (command : Command) :
    w.contained.submit command.contained = replyContained (w.submit command) := by
  have hqueue : w.contained.queue command.contained.queue = (w.queue command.queue).contained :=
    w.queue_contained command.queue
  have haccepting' : (w.contained.queue command.contained.queue).accepting =
      (w.queue command.queue).accepting := by rw [hqueue]; rfl
  have halive' : (w.contained.queue command.contained.queue).alive =
      (w.queue command.queue).alive := by rw [hqueue]; rfl
  cases haccepting : (w.queue command.queue).accepting with
  | false =>
    rw [submit_of_not_accepting haccepting,
      submit_of_not_accepting (haccepting'.trans haccepting)]
    rfl
  | true =>
    cases halive : (w.queue command.queue).alive with
    | false =>
      rw [submit_of_not_alive haccepting halive,
        submit_of_not_alive (haccepting'.trans haccepting) (halive'.trans halive)]
      rfl
    | true =>
      have htakes : w.takes command.queue = true := (takes_eq halive).trans haccepting
      have htakes' : w.contained.takes command.contained.queue = true :=
        (takes_eq (halive'.trans halive)).trans (haccepting'.trans haccepting)
      have hstate : ∀ queue, contained { w.setQueue command.queue queue with
            commands := w.commands ++ [command] } =
          { w.contained.setQueue command.queue queue.contained with
            commands := w.contained.commands ++ [command.contained] } := by
        intro queue
        simp [contained, setQueue, List.map_set]
      rw [submit_of_takes htakes, submit_of_takes htakes']
      simp only [replyContained, hstate, length_commands_contained, hqueue]
      rfl

theorem enqueueWork_contained (w : World) (q : QueueRef) (work : List Action) :
    w.contained.enqueueWork q (beforePanic work) = replyContained (w.enqueueWork q work) := by
  rw [enqueueWork, enqueueWork, ← submit_contained, queue_contained]
  rfl

theorem enqueueMarker_contained (w : World) (q : QueueRef) (request : MarkerRequest CommandRef) :
    w.contained.enqueueMarker q request = replyContained (w.enqueueMarker q request) := by
  rw [enqueueMarker, enqueueMarker, ← submit_contained, queue_contained]
  rfl

theorem enqueueBarrier_contained (w : World) (q : QueueRef) :
    w.contained.enqueueBarrier q = replyContained (w.enqueueBarrier q) := by
  rw [enqueueBarrier, enqueueBarrier, ← submit_contained, queue_contained]
  rfl

/-- Every request is answered alike. -/
theorem serve_contained (w : World) (request : EngineRequest) :
    w.contained.serve request = (w.serve request).map replyContained := by
  cases request with
  | enqueueMarker q marker => exact congrArg some (w.enqueueMarker_contained q marker)
  | await c =>
    rw [serve, serve, status_contained]
    split <;> rfl
  | queueId | profiling | lastEnqueued | status | tryAdvance | timestamps | userVisible | ownerId
  | owner =>
    simp [serve, tell, replyContained, Queue.contained, Command.contained]

/-! ## What workers do -/

theorem readClock_contained (w : World) (q : QueueRef) :
    w.contained.readClock q = ((w.readClock q).1, (w.readClock q).2.contained) := by
  have hclock : (w.contained.queue q).clock = (w.queue q).clock := by
    rw [queue_contained]
    rfl
  rw [readClock, readClock, hclock, show w.contained.clocks = w.clocks from rfl]
  split <;> rfl

theorem stamp_contained (w : World) (q : QueueRef) (timed : Bool) :
    w.contained.stamp q timed = ((w.stamp q timed).1, (w.stamp q timed).2.contained) := by
  cases timed with
  | false => rfl
  | true =>
    rw [stamp, stamp, readClock_contained]

theorem setWorker_contained (w : World) (q : QueueRef) (place : Worker) :
    w.contained.setWorker q place.contained = (w.setWorker q place).contained := by
  rw [setWorker, setWorker, contained_setQueue, queue_contained]
  rfl

theorem afterAction_contained (w : World) (queue : Queue) {action : Action}
    (h : ∀ payload, action ≠ .panic payload) :
    w.contained.afterAction queue.contained action = (w.afterAction queue action).contained := by
  cases action with
  | panic payload => exact absurd rfl (h payload)
  | push entry => rfl
  | see other =>
    rw [afterAction, afterAction, queue_contained]
    rfl

theorem advance?_contained (h : (w.queue q).worker.panicking = false) :
    w.contained.advance? q = (w.advance? q).map contained := by
  have hworker : (w.contained.queue q).worker = (w.queue q).worker.contained := by
    rw [queue_contained]
    rfl
  rw [advance?, advance?, hworker]
  cases hplace : (w.queue q).worker with
  | idle =>
    have hinbox : (w.contained.queue q).inbox = (w.queue q).inbox := by
      rw [queue_contained]
      rfl
    simp only [Worker.contained, hinbox]
    cases (w.queue q).inbox with
    | nil => rfl
    | cons c rest =>
      simp only [Option.map_some, contained_setQueue, queue_contained]
      rfl
  | atGate c =>
    have hpaused : (w.contained.queue q).paused = (w.queue q).paused := by
      rw [queue_contained]
      rfl
    simp only [Worker.contained, hpaused, command_contained]
    split
    · rfl
    · exact congrArg some (w.setWorker_contained q (.waiting c (w.command c).waitList))
  | waiting c remaining =>
    cases remaining with
    | cons d rest =>
      simp only [Worker.contained, status_contained]
      split
      · exact congrArg some (w.setWorker_contained q (.waiting c rest))
      · rfl
    | nil =>
      simp only [Worker.contained, command_contained]
      rw [show (w.command c).contained.timed = (w.command c).timed from rfl, stamp_contained]
      exact congrArg some (setWorker_contained _ q (.running c _ (w.command c).work))
  | running c start remaining =>
    cases remaining with
    | nil =>
      simp only [Worker.contained, beforePanic]
      rw [stamp_contained]
      exact congrArg some (setWorker_contained _ q (.finishing c _))
    | cons action rest =>
      have hgood : ∀ payload, action ≠ .panic payload := by
        rintro payload rfl
        rw [hplace] at h
        cases h
      have hnext : beforePanic (remainingAfter action rest) =
          remainingAfter action (beforePanic rest) := by
        cases action with
        | panic payload => exact absurd rfl (hgood payload)
        | push | see => rfl
      simp only [Worker.contained, beforePanic_cons hgood, Option.map_some, contained_setQueue]
      rw [queue_contained, afterAction_contained w _ hgood, ← hnext]
      rfl
  | finishing c times =>
    simp only [Worker.contained, command_contained, Option.map_some]
    rw [← setWorker_contained, contained_setCommand]
    rfl

/-- A worker whose next action is no panic does what it does in the contained world. -/
theorem step?_contained (h : (w.queue q).worker.panicking = false) :
    w.contained.step? q = (w.step? q).map contained := by
  have halive : (w.contained.queue q).alive = (w.queue q).alive := by
    rw [queue_contained]
    rfl
  rw [step?, step?, halive]
  split
  · exact advance?_contained h
  · rfl

/-- The step in which work panics changes nothing in the contained world. -/
theorem contained_of_panicking (h : (w.queue q).worker.panicking = true)
    (halive : (w.queue q).alive = true)
    (hwork : .panic .explosive ∉ (w.queue q).worker.remaining) :
    ∃ w', w.step? q = some w' ∧ w'.contained = w.contained ∧
      (w'.queue q).worker.panicking = false := by
  obtain ⟨c, start, payload, rest, hplace⟩ : ∃ c start payload rest,
      (w.queue q).worker = .running c start (.panic payload :: rest) := by
    unfold Worker.panicking at h
    split at h
    next c start payload rest hplace => exact ⟨c, start, payload, rest, hplace⟩
    next => cases h
  have hq : q < w.queues.length := by
    refine Nat.lt_of_not_le fun hle => ?_
    rw [w.queue_of_le hle] at hplace
    cases hplace
  have hpayload : payload ≠ .explosive := by
    rintro rfl
    rw [hplace] at hwork
    exact hwork List.mem_cons_self
  refine ⟨_, by rw [step?_of_alive halive, advance?, hplace], ?_, ?_⟩
  · have hqueue : Queue.contained { w.afterAction (w.queue q) (.panic payload) with
        worker := .running c start (remainingAfter (.panic payload) rest) } =
          w.contained.queue q := by
      rw [queue_contained, Queue.contained, Queue.contained, hplace, afterAction,
        decide_eq_true hpayload, halive]
      rfl
    rw [contained_setQueue, hqueue, setQueue_queue]
  · rw [queue_setQueue_self _ hq]
    rfl

end World

end SyncPoint.Host
