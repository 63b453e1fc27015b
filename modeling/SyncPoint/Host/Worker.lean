import SyncPoint.Host.World

/-!
# Workers

A worker receives its queue's commands in order.  It holds a command before the gate while the queue
is paused, waits for the commands that it depends on, reads the clock, does the work, reads the
clock again and completes the command.  Each of these is a step of its own, so that whatever callers
and other workers do may fall between any two.

A panic of the work is caught and reported, and the worker goes on.  What the panic carried is
dropped where nothing is caught any more: if that panics in its turn, the worker is gone.
-/

namespace SyncPoint.Host.World

def setWorker (w : World) (q : QueueRef) (worker : Worker) : World :=
  w.setQueue q { w.queue q with worker := worker }

/-- Reads the clock if the command is timed. -/
def stamp (w : World) (q : QueueRef) : Bool → Option UInt64 × World
  | false => (none, w)
  | true => (some (w.readClock q).1, (w.readClock q).2)

/-- A queue after one action of its work, which may look at the traces of the world. -/
def afterAction (w : World) (queue : Queue) : Action → Queue
  | .push entry => { queue with trace := queue.trace ++ [entry] }
  | .see other => { queue with trace := queue.trace ++ [((w.queue other).trace.length : Int)] }
  | .panic payload =>
    { queue with panics := queue.panics ++ [payload], alive := payload ≠ .explosive }

/-- What is left to do after an action: a panic ends the work. -/
def remainingAfter : Action → List Action → List Action
  | .panic _, _ => []
  | _, rest => rest

/-- The times of a command, if both were read. -/
def pairTimes? : Option UInt64 → Option UInt64 → Option Timestamps
  | some start, some stop => some ⟨start, stop⟩
  | _, _ => none

/-- One step of a worker that is there, if it can make one. -/
def advance? (w : World) (q : QueueRef) : Option World :=
  match (w.queue q).worker with
  | .idle =>
    match (w.queue q).inbox with
    | [] => none
    | c :: rest => some (w.setQueue q { w.queue q with inbox := rest, worker := .atGate c })
  | .atGate c =>
    if (w.queue q).paused then none
    else some (w.setWorker q (.waiting c (w.command c).waitList))
  | .waiting c (d :: rest) =>
    if w.status d = .complete then some (w.setWorker q (.waiting c rest)) else none
  | .waiting c [] =>
    let started := w.stamp q (w.command c).timed
    some (started.2.setWorker q (.running c started.1 (w.command c).work))
  | .running c start (action :: rest) =>
    some (w.setQueue q
      { w.afterAction (w.queue q) action with
        worker := .running c start (remainingAfter action rest) })
  | .running c start [] =>
    let stopped := w.stamp q start.isSome
    some (stopped.2.setWorker q (.finishing c (pairTimes? start stopped.1)))
  | .finishing c times =>
    some ((w.setCommand c { w.command c with completion := .complete times }).setWorker q .idle)

/-- One step of a queue's worker, if it is there and can make one. -/
def step? (w : World) (q : QueueRef) : Option World :=
  if (w.queue q).alive then w.advance? q else none

theorem step?_of_alive {w : World} {q : QueueRef} (h : (w.queue q).alive = true) :
    w.step? q = w.advance? q :=
  if_pos h

theorem step?_eq_some_iff {w w' : World} {q : QueueRef} :
    w.step? q = some w' ↔ (w.queue q).alive = true ∧ w.advance? q = some w' := by
  rw [step?]
  split <;> simp_all

end SyncPoint.Host.World
