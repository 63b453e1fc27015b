import SyncPoint.Host.Calls
import SyncPoint.Host.Settling

/-!
# How a world of host queues changes

Workers and callers change a world one step at a time.  `Works` lists the steps of a worker and
`Called` those of callers, each with what it finds and what it leaves; no later proof opens `step?`
or the calls.

What a step does to the order of commands in their queues is in `Proofs.Host.Lines`, and what it
leaves as it was in `Proofs.Host.Growth`.
-/

namespace SyncPoint.Host

/-- What is left of the work that the worker is doing. -/
def Worker.remaining : Worker → List Action
  | .running _ _ remaining => remaining
  | _ => []

namespace World

/-! ## The steps -/

/-- The steps of the worker of `q`. -/
inductive Works (w : World) (q : QueueRef) : World → Prop
  | receive {c : CommandRef} {rest : List CommandRef} (hplace : (w.queue q).worker = .idle)
      (hinbox : (w.queue q).inbox = c :: rest) :
      Works w q (w.setQueue q { w.queue q with inbox := rest, worker := .atGate c })
  | enter {c : CommandRef} (hplace : (w.queue q).worker = .atGate c)
      (hopen : (w.queue q).paused = false) :
      Works w q (w.setWorker q (.waiting c (w.command c).waitList))
  | pass {c d : CommandRef} {rest : List CommandRef}
      (hplace : (w.queue q).worker = .waiting c (d :: rest)) (hdone : w.status d = .complete) :
      Works w q (w.setWorker q (.waiting c rest))
  | start {c : CommandRef} (hplace : (w.queue q).worker = .waiting c []) :
      Works w q ((w.stamp q (w.command c).timed).2.setWorker q
        (.running c (w.stamp q (w.command c).timed).1 (w.command c).work))
  | act {c : CommandRef} {start : Option UInt64} {action : Action} {rest : List Action}
      (hplace : (w.queue q).worker = .running c start (action :: rest)) :
      Works w q (w.setQueue q { w.afterAction (w.queue q) action with
        worker := .running c start (remainingAfter action rest) })
  | stop {c : CommandRef} {start : Option UInt64}
      (hplace : (w.queue q).worker = .running c start []) :
      Works w q ((w.stamp q start.isSome).2.setWorker q
        (.finishing c (pairTimes? start (w.stamp q start.isSome).1)))
  | complete {c : CommandRef} {times : Option Timestamps}
      (hplace : (w.queue q).worker = .finishing c times) :
      Works w q ((w.setCommand c { w.command c with completion := .complete times }).setWorker q
        .idle)

theorem works_of_step? {w w' : World} {q : QueueRef} (h : w.step? q = some w') :
    w.Works q w' := by
  obtain ⟨-, h⟩ := step?_eq_some_iff.1 h
  rw [advance?] at h
  split at h
  next hplace =>
    split at h
    next => cases h
    next hinbox => cases h; exact .receive hplace hinbox
  next hplace =>
    split at h
    next => cases h
    next hopen => cases h; exact .enter hplace (by simpa using hopen)
  next hplace =>
    split at h
    next hdone => cases h; exact .pass hplace hdone
    next => cases h
  next hplace => cases h; exact .start hplace
  next hplace => cases h; exact .act hplace
  next hplace => cases h; exact .stop hplace
  next hplace => cases h; exact .complete hplace

theorem Works.lt {w w' : World} {q : QueueRef} (h : w.Works q w') : q < w.queues.length := by
  rcases Nat.lt_or_ge q w.queues.length with hq | hq
  · exact hq
  · have hqueue := w.queue_of_le hq
    cases h with
    | receive _ hinbox => rw [hqueue] at hinbox; cases hinbox
    | enter hplace | pass hplace | start hplace | act hplace | stop hplace | complete hplace =>
      rw [hqueue] at hplace
      cases hplace

/-- What callers do. A command that is handed over has not run, what it waits for exists, and its
work leaves the worker alive. -/
inductive Called (w : World) : World → Prop
  | addQueue (config : QueueConfig) (hfew : w.queues.length + 1 < UInt64.size) :
      Called w (w.addQueue config).2
  | cloneHandle (q : QueueRef) : Called w (w.cloneHandle q)
  | dropHandle (q : QueueRef) : Called w (w.dropHandle q)
  | setPaused (q : QueueRef) (paused : Bool) : Called w (w.setPaused q paused)
  | shutdown (q : QueueRef) : Called w (w.shutdown q).state
  | submit (command : Command) (hpending : command.completion = .pending)
      (hwait : ∀ d ∈ command.waitList, d < w.commands.length)
      (hwork : .panic .explosive ∉ command.work) : Called w (w.submit command).state

/-! ## Fields after a step -/

@[simp] theorem queues_addClock (w : World) (clock : ClockChoice) :
    (w.addClock clock).2.queues = w.queues := by
  cases clock <;> rfl

@[simp] theorem commands_addClock (w : World) (clock : ClockChoice) :
    (w.addClock clock).2.commands = w.commands := by
  cases clock <;> rfl

@[simp] theorem commands_addQueue (w : World) (config : QueueConfig) :
    (w.addQueue config).2.commands = w.commands := by
  simp [addQueue]

@[simp] theorem length_queues_addQueue (w : World) (config : QueueConfig) :
    (w.addQueue config).2.queues.length = w.queues.length + 1 := by
  simp [addQueue]

theorem queue_addQueue_of_lt (w : World) (config : QueueConfig) {q : QueueRef}
    (hq : q < w.queues.length) : (w.addQueue config).2.queue q = w.queue q := by
  simp [World.queue, addQueue, List.getElem?_append_left hq]

theorem queue_addQueue_self (w : World) (config : QueueConfig) :
    (w.addQueue config).2.queue w.queues.length =
      { id := ⟨UInt64.ofNat (w.queues.length + 1)⟩
        name := config.name.getD ("queue-" ++ toString (w.queues.length + 1))
        profiling := config.profiling
        clock := (w.addClock config.clock).1 } := by
  simp [World.queue, addQueue]

/-- A queue after a change is as before, or it is the one that changed. -/
theorem queue_setQueue_cases (w : World) (q : QueueRef) (queue : Queue) (r : QueueRef) :
    (w.setQueue q queue).queue r = w.queue r ∨ r = q ∧ (w.setQueue q queue).queue r = queue := by
  by_cases hr : r = q
  · rcases Nat.lt_or_ge q w.queues.length with hq | hq
    · exact .inr ⟨hr, hr ▸ w.queue_setQueue_self hq queue⟩
    · exact .inl (by rw [setQueue, List.set_eq_of_length_le hq])
  · exact .inl (w.queue_setQueue_of_ne hr queue)

@[simp] theorem commands_setQueue (w : World) (q : QueueRef) (queue : Queue) :
    (w.setQueue q queue).commands = w.commands := rfl

@[simp] theorem length_queues_setQueue (w : World) (q : QueueRef) (queue : Queue) :
    (w.setQueue q queue).queues.length = w.queues.length := by
  simp [setQueue]

@[simp] theorem commands_setWorker (w : World) (q : QueueRef) (worker : Worker) :
    (w.setWorker q worker).commands = w.commands := rfl

@[simp] theorem length_queues_setWorker (w : World) (q : QueueRef) (worker : Worker) :
    (w.setWorker q worker).queues.length = w.queues.length :=
  w.length_queues_setQueue q _

@[simp] theorem command_stamp (w : World) (q : QueueRef) (timed : Bool) :
    (w.stamp q timed).2.command = w.command := by
  funext c
  simp [command]

@[simp] theorem queues_setCommand (w : World) (c : CommandRef) (command : Command) :
    (w.setCommand c command).queues = w.queues := rfl

@[simp] theorem length_commands_setCommand (w : World) (c : CommandRef) (command : Command) :
    (w.setCommand c command).commands.length = w.commands.length := by
  simp [setCommand]

theorem command_of_le (w : World) {c : CommandRef} (hc : w.commands.length ≤ c) :
    w.command c = default := by
  simp [command, List.getElem?_eq_none hc]

theorem lt_of_status_eq_complete {w : World} {c : CommandRef} (h : w.status c = .complete) :
    c < w.commands.length := by
  rcases Nat.lt_or_ge c w.commands.length with hc | hc
  · exact hc
  · rw [status, w.command_of_le hc] at h
    cases h

/-! ## Handing over a command -/

/-- Whether a command that is handed to the queue is taken. -/
def takes (w : World) (q : QueueRef) : Bool := (w.queue q).accepting && (w.queue q).alive

section Submit

variable {w : World} {command : Command}

/-- A queue that was shut down leaves everything as it was. -/
theorem submit_of_not_accepting (h : (w.queue command.queue).accepting = false) :
    w.submit command = { value := .error .queueShutDown, state := w } := by
  simp [submit, h]

/-- So does one whose worker is gone. -/
theorem submit_of_not_alive (haccepting : (w.queue command.queue).accepting = true)
    (halive : (w.queue command.queue).alive = false) :
    w.submit command = { value := .error .workerGone, state := w } := by
  simp [submit, haccepting, halive]

theorem submit_of_not_takes (h : w.takes command.queue = false) :
    ∃ failure, w.submit command = { value := .error failure, state := w } := by
  cases haccepting : (w.queue command.queue).accepting with
  | false => exact ⟨_, submit_of_not_accepting haccepting⟩
  | true =>
    rw [takes, haccepting, Bool.true_and] at h
    exact ⟨_, submit_of_not_alive haccepting h⟩

theorem state_of_not_takes (h : w.takes command.queue = false) :
    (w.submit command).state = w := by
  obtain ⟨failure, hrefused⟩ := submit_of_not_takes h
  rw [hrefused]

theorem takes_eq {q : QueueRef} (halive : (w.queue q).alive = true) :
    w.takes q = (w.queue q).accepting := by
  rw [takes, halive, Bool.and_true]

theorem accepting_of_takes {q : QueueRef} (h : w.takes q = true) :
    (w.queue q).accepting = true :=
  (Bool.and_eq_true_iff.1 h).1

theorem lt_of_accepting {q : QueueRef} (h : (w.queue q).accepting = true) :
    q < w.queues.length := by
  rcases Nat.lt_or_ge q w.queues.length with hq | hq
  · exact hq
  · rw [w.queue_of_le hq] at h
    cases h

variable (h : w.takes command.queue = true)
include h

theorem submit_of_takes : w.submit command =
    { value := .ok w.commands.length
      state := { w.setQueue command.queue { w.queue command.queue with
          inbox := (w.queue command.queue).inbox ++ [w.commands.length]
          last := some w.commands.length } with
        commands := w.commands ++ [command] }
      log := [.commandEnqueued (w.queue command.queue).id command.kind command.timed] } := by
  obtain ⟨haccepting, halive⟩ := Bool.and_eq_true_iff.1 h
  simp [submit, haccepting, halive]

theorem value_submit : (w.submit command).value = .ok w.commands.length := by
  rw [submit_of_takes h]

@[simp] theorem commands_submit :
    (w.submit command).state.commands = w.commands ++ [command] := by
  rw [submit_of_takes h]

@[simp] theorem length_queues_submit :
    (w.submit command).state.queues.length = w.queues.length := by
  simp [submit_of_takes h, World.setQueue]

theorem command_submit_self : (w.submit command).state.command w.commands.length = command := by
  simp [World.command, h]

theorem command_submit_of_ne {c : CommandRef} (hc : c ≠ w.commands.length) :
    (w.submit command).state.command c = w.command c := by
  rcases Nat.lt_or_ge c w.commands.length with hlt | hge
  · simp [World.command, h, List.getElem?_append_left hlt]
  · have hgt : w.commands.length < c := Nat.lt_of_le_of_ne hge (Ne.symm hc)
    have hlength : (w.submit command).state.commands.length = w.commands.length + 1 := by simp [h]
    rw [command_of_le _ (by rw [hlength]; exact hgt), command_of_le _ hge]

theorem queue_submit_self : (w.submit command).state.queue command.queue =
    { w.queue command.queue with
      inbox := (w.queue command.queue).inbox ++ [w.commands.length]
      last := some w.commands.length } := by
  rw [submit_of_takes h]
  exact w.queue_setQueue_self (lt_of_accepting (accepting_of_takes h)) _

theorem queue_submit_of_ne {q : QueueRef} (hq : q ≠ command.queue) :
    (w.submit command).state.queue q = w.queue q := by
  rw [submit_of_takes h]
  exact w.queue_setQueue_of_ne hq _

/-- The command is the last in its queue's order of acceptance. -/
theorem accepted_submit_self : (w.submit command).state.accepted command.queue =
    w.accepted command.queue ++ [w.commands.length] := by
  have hold : ∀ c ∈ List.range w.commands.length,
      decide (((w.submit command).state.command c).queue = command.queue) =
        decide ((w.command c).queue = command.queue) := fun c hc => by
    rw [command_submit_of_ne h (Nat.ne_of_lt (List.mem_range.1 hc))]
  rw [accepted, accepted, commands_submit h, List.length_append, List.length_singleton,
    List.range_succ, List.filter_append, List.filter_congr hold]
  simp [command_submit_self h]

theorem accepted_submit_of_ne {q : QueueRef} (hq : q ≠ command.queue) :
    (w.submit command).state.accepted q = w.accepted q := by
  have hold : ∀ c ∈ List.range w.commands.length,
      decide (((w.submit command).state.command c).queue = q) =
        decide ((w.command c).queue = q) := fun c hc => by
    rw [command_submit_of_ne h (Nat.ne_of_lt (List.mem_range.1 hc))]
  rw [accepted, accepted, commands_submit h, List.length_append, List.length_singleton,
    List.range_succ, List.filter_append, List.filter_congr hold]
  simp [command_submit_self h, hq.symm]

theorem status_submit (hpending : command.completion = .pending) :
    (w.submit command).state.status = w.status := by
  funext c
  rw [status, status]
  by_cases hc : c = w.commands.length
  · rw [hc, command_submit_self h, hpending, command_of_le _ (Nat.le_refl _)]
    rfl
  · rw [command_submit_of_ne h hc]

omit h in
theorem takes_of_value_submit {c : CommandRef} (hc : (w.submit command).value = .ok c) :
    w.takes command.queue = true := by
  cases h : w.takes command.queue with
  | false =>
    obtain ⟨failure, hrefused⟩ := submit_of_not_takes h
    rw [hrefused] at hc
    cases hc
  | true => rfl

omit h in
theorem command_of_value_submit {c : CommandRef} (hc : (w.submit command).value = .ok c) :
    c = w.commands.length ∧ (w.submit command).state.command c = command := by
  have h := takes_of_value_submit hc
  rw [value_submit h] at hc
  cases hc
  exact ⟨rfl, command_submit_self h⟩

omit h in
/-- A command that was accepted exists from then on. -/
theorem lt_of_value_submit {c : CommandRef} (hc : (w.submit command).value = .ok c) :
    c < (w.submit command).state.commands.length := by
  rw [(command_of_value_submit hc).1, commands_submit (takes_of_value_submit hc)]
  simp

omit h in
/-- A queue that refuses a command is left as it was. -/
theorem state_of_value_submit {failure : Failure}
    (hfailed : (w.submit command).value = .error failure) : (w.submit command).state = w := by
  cases h : w.takes command.queue with
  | false => exact state_of_not_takes h
  | true =>
    rw [value_submit h] at hfailed
    cases hfailed

omit h in
/-- While its worker is there, a queue refuses commands only if it takes none any more. -/
theorem refused_of_value_submit {failure : Failure}
    (halive : (w.queue command.queue).alive = true)
    (hfailed : (w.submit command).value = .error failure) :
    failure = .queueShutDown ∧ (w.queue command.queue).accepting = false := by
  cases haccepting : (w.queue command.queue).accepting with
  | false =>
    rw [submit_of_not_accepting haccepting] at hfailed
    cases hfailed
    exact ⟨rfl, rfl⟩
  | true =>
    rw [value_submit ((takes_eq halive).trans haccepting)] at hfailed
    cases hfailed

end Submit

end World

end SyncPoint.Host
