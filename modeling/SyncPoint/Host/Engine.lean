import SyncPoint.Host.Calls
import SyncPoint.Host.Settling

/-!
# Host queues as an engine

`World.serve` answers a request in the state as it is; a wait is answered only once the command has
run.  `engine` lets the workers go on before a wait is looked at, so that a wait goes unanswered
only if nothing but a caller could end it.
-/

namespace SyncPoint.Host

namespace World

/-- An answer that changes nothing. -/
def tell {α : Type} (w : World) (value : α) : Option (Reply World α) :=
  some { value := value, state := w }

/-- Answers a request in the state as it is. -/
def serve (w : World) : (request : EngineRequest) → Option (Reply World request.Answer)
  | .queueId q => w.tell (w.queue q).id
  | .profiling q => w.tell (w.queue q).profiling
  | .lastEnqueued q => w.tell (w.queue q).last
  | .enqueueMarker q request => some (w.enqueueMarker q request)
  | .status c => w.tell (w.status c)
  | .tryAdvance c => w.tell (w.canAdvance (w.command c).queue)
  | .await c => if w.status c = .complete then w.tell () else none
  | .timestamps c => w.tell (w.times? c)
  | .userVisible c => w.tell ((w.command c).kind ≠ .barrier)
  | .ownerId c => w.tell (w.queue (w.command c).queue).id
  | .owner c =>
    let q := (w.command c).queue
    w.tell (if 0 < (w.queue q).handles then some q else none)

/-- The state in which a request is looked at: a wait gives the workers all the time they need. -/
def settledFor (w : World) : EngineRequest → World
  | .await _ => w.settle
  | _ => w

end World

/-- Host queues as an engine. -/
def engine : Engine World where
  serve request w := (w.settledFor request).serve request

/-- Enqueues a barrier and waits for it. There is no answer if the wait would not end. -/
def World.finish (w : World) (q : QueueRef) : Option (Reply World (Except Failure Unit)) :=
  let barrier := w.enqueueBarrier q
  match barrier.value with
  | .error failure => some { value := .error failure, state := barrier.state, log := barrier.log }
  | .ok c =>
    (engine.serve (.await c) barrier.state).map fun reply =>
      { value := .ok (), state := reply.state, log := barrier.log ++ reply.log }

end SyncPoint.Host
