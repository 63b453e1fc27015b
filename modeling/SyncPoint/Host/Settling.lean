import SyncPoint.Host.Worker

/-!
# Letting workers go on

Between two calls of callers the workers go on until none can make a step.  `World.workload` bounds
the steps that are possible: every step leaves less of it (`workload_lt_of_step?_eq_some`), so
`World.settle` needs no more steps than that and ends with every worker stuck (`step?_settle`).
-/

namespace SyncPoint.Host.World

/-- The sum of a measure over a list. -/
def sumOver {α : Type} (f : α → Nat) : List α → Nat
  | [] => 0
  | x :: rest => f x + sumOver f rest

/-- The most steps that a command can take its worker. -/
def cost (w : World) (c : CommandRef) : Nat :=
  (w.command c).waitList.length + (w.command c).work.length + 5

/-- The most steps that a worker can make with the command it has. -/
def workerCost (w : World) : Worker → Nat
  | .idle => 0
  | .atGate c => (w.command c).waitList.length + (w.command c).work.length + 4
  | .waiting c remaining => remaining.length + (w.command c).work.length + 3
  | .running _ _ remaining => remaining.length + 2
  | .finishing .. => 1

/-- The most steps that a queue's worker can make before callers do anything more. -/
def queueCost (w : World) (queue : Queue) : Nat :=
  w.workerCost queue.worker + sumOver w.cost queue.inbox

/-- The most steps that all workers can make before callers do anything more. -/
def workload (w : World) : Nat := sumOver w.queueCost w.queues

/-- Lets the first worker that can make a step make it, at most `steps` times. -/
def settleIn : Nat → World → World
  | 0, w => w
  | steps + 1, w =>
    match (List.range w.queues.length).findSome? w.step? with
    | none => w
    | some w => settleIn steps w

/-- Lets the workers go on until none can. -/
def settle (w : World) : World := settleIn w.workload w

/-! ## Settling comes to an end

Every step takes one from the workload at least, so the workload is steps enough.
-/

/-- A queue that does not exist has a worker that never moves. -/
theorem lt_of_step?_eq_some {w w' : World} {q : QueueRef} (h : w.step? q = some w') :
    q < w.queues.length := by
  by_cases hq : q < w.queues.length
  · exact hq
  · rw [step?, advance?, w.queue_of_le (Nat.not_lt.1 hq)] at h
    cases h

/-- Costs look at the wait-lists and the work of commands only. -/
theorem queueCost_congr {w w' : World}
    (hcommand : ∀ c, (w'.command c).waitList = (w.command c).waitList ∧
      (w'.command c).work = (w.command c).work) : w'.queueCost = w.queueCost := by
  have hcost : w'.cost = w.cost := funext fun c => by simp [cost, hcommand]
  funext queue
  have hworker : w'.workerCost queue.worker = w.workerCost queue.worker := by
    cases queue.worker <;> simp [workerCost, hcommand]
  rw [queueCost, queueCost, hcost, hworker]

/-- Replacing one term of a sum by a smaller one makes the sum smaller. -/
theorem sumOver_set_lt {α : Type} (f : α → Nat) (a : α) :
    ∀ (l : List α) (i : Nat) (hi : i < l.length), f a < f l[i] →
      sumOver f (l.set i a) < sumOver f l
  | [], i, hi, _ => absurd hi (Nat.not_lt_zero i)
  | x :: l, 0, _, h => by simpa [sumOver] using h
  | x :: l, i + 1, hi, h => by
    have hrest := sumOver_set_lt f a l i (Nat.lt_of_succ_lt_succ hi) (by simpa using h)
    simpa [sumOver] using hrest

/-- Replacing a queue by one that costs less makes the workload smaller. -/
theorem workload_setQueue_lt {w : World} {q : QueueRef} {queue : Queue}
    (hq : q < w.queues.length) (hless : w.queueCost queue < w.queueCost (w.queue q)) :
    (w.setQueue q queue).workload < w.workload := by
  have hcosts : (w.setQueue q queue).queueCost = w.queueCost :=
    queueCost_congr fun c => ⟨rfl, rfl⟩
  rw [w.queue_of_lt hq] at hless
  rw [workload, workload, hcosts]
  exact sumOver_set_lt _ _ _ _ hq hless

@[simp] theorem queues_stamp (w : World) (q : QueueRef) (timed : Bool) :
    (w.stamp q timed).2.queues = w.queues := by
  cases timed
  · rfl
  · simp only [stamp, readClock]
    split <;> rfl

@[simp] theorem commands_stamp (w : World) (q : QueueRef) (timed : Bool) :
    (w.stamp q timed).2.commands = w.commands := by
  cases timed
  · rfl
  · simp only [stamp, readClock]
    split <;> rfl

@[simp] theorem queue_stamp (w : World) (q : QueueRef) (timed : Bool) :
    (w.stamp q timed).2.queue = w.queue := by
  funext r
  simp [queue]

@[simp] theorem queueCost_stamp (w : World) (q : QueueRef) (timed : Bool) :
    (w.stamp q timed).2.queueCost = w.queueCost :=
  queueCost_congr fun c => by simp [command]

@[simp] theorem workload_stamp (w : World) (q : QueueRef) (timed : Bool) :
    (w.stamp q timed).2.workload = w.workload := by
  simp [workload]

theorem queueCost_setCommand_complete (w : World) (c : CommandRef) (times : Option Timestamps) :
    (w.setCommand c { w.command c with completion := .complete times }).queueCost = w.queueCost :=
  queueCost_congr fun d => by
    by_cases hc : c < w.commands.length
    · by_cases hd : d = c
      · subst d
        simp [w.command_setCommand_self hc]
      · simp [w.command_setCommand_of_ne hd]
    · simp [setCommand, List.set_eq_of_length_le (Nat.not_lt.1 hc), command]

theorem length_remainingAfter_le (action : Action) (rest : List Action) :
    (remainingAfter action rest).length ≤ rest.length := by
  cases action <;> simp [remainingAfter]

/-- A step of a worker leaves less work to do. -/
theorem workload_lt_of_step?_eq_some {w w' : World} {q : QueueRef} (h : w.step? q = some w') :
    w'.workload < w.workload := by
  have hq := lt_of_step?_eq_some h
  obtain ⟨-, h⟩ := step?_eq_some_iff.1 h
  rw [advance?] at h
  split at h
  next hworker =>
    split at h
    next => cases h
    next c rest hinbox =>
      cases h
      refine workload_setQueue_lt hq ?_
      simp only [queueCost, workerCost, hworker, hinbox, sumOver, cost]
      omega
  next c hworker =>
    split at h
    next => cases h
    next =>
      cases h
      refine workload_setQueue_lt hq ?_
      simp only [queueCost, workerCost, hworker]
      omega
  next c d rest hworker =>
    split at h
    next =>
      cases h
      refine workload_setQueue_lt hq ?_
      simp only [queueCost, workerCost, hworker, List.length_cons]
      omega
    next => cases h
  next c hworker =>
    cases h
    rw [← w.workload_stamp q (w.command c).timed]
    refine workload_setQueue_lt (by simpa using hq) ?_
    simp only [queueCost_stamp, queue_stamp]
    simp only [queueCost, workerCost, hworker, List.length_nil]
    omega
  next c start action rest hworker =>
    cases h
    refine workload_setQueue_lt hq ?_
    have hinbox : (w.afterAction (w.queue q) action).inbox = (w.queue q).inbox := by
      cases action <;> rfl
    have hrest := length_remainingAfter_le action rest
    simp only [queueCost, workerCost, hworker, hinbox, List.length_cons]
    omega
  next c start hworker =>
    cases h
    rw [← w.workload_stamp q start.isSome]
    refine workload_setQueue_lt (by simpa using hq) ?_
    simp only [queueCost_stamp, queue_stamp]
    simp only [queueCost, workerCost, hworker, List.length_nil]
    omega
  next c times hworker =>
    cases h
    have hcosts := w.queueCost_setCommand_complete c times
    have hworkload : (w.setCommand c { w.command c with completion := .complete times }).workload =
        w.workload := by
      rw [workload, workload, hcosts]
      rfl
    rw [← hworkload]
    refine workload_setQueue_lt hq ?_
    rw [hcosts, queue_setCommand]
    simp only [queueCost, workerCost, hworker]
    omega

theorem step?_settleIn (steps : Nat) (w : World) (hsteps : w.workload ≤ steps) (q : QueueRef) :
    (settleIn steps w).step? q = none := by
  have hstuck (w : World) (h : (List.range w.queues.length).findSome? w.step? = none) :
      w.step? q = none := by
    cases hstep : w.step? q with
    | none => rfl
    | some w' =>
      have hmember := List.mem_range.2 (lt_of_step?_eq_some hstep)
      rw [List.findSome?_eq_none_iff.1 h q hmember] at hstep
      cases hstep
  induction steps generalizing w with
  | zero =>
    cases hstep : w.step? q with
    | none => exact hstep
    | some w' => exact absurd (workload_lt_of_step?_eq_some hstep) (by omega)
  | succ steps ih =>
    rw [settleIn]
    split
    next h => exact hstuck w h
    next w' h =>
      obtain ⟨r, -, hstep⟩ := List.exists_of_findSome?_eq_some h
      have hless := workload_lt_of_step?_eq_some hstep
      exact ih w' (by omega)

/-- After settling, no worker can make a step. -/
theorem step?_settle (w : World) (q : QueueRef) : w.settle.step? q = none :=
  step?_settleIn w.workload w (Nat.le_refl _) q

end SyncPoint.Host.World
