import SyncPoint.Proofs.Machine.Schedule
import SyncPoint.Proofs.Machine.Waiting

/-!
# Threads do not lock each other out

Whatever calls threads make, and however their requests for locks interleave, no thread asks for the
lock of an event that it holds, no threads wait for each other in a circle, and whoever waits for a
lock is led to a thread that holds one and waits for none (`Machine.locks_in_order`).

Events are told apart by their ordinals, which are handed out in the order of construction and never
twice.  A measurement of an event against itself takes the one lock once; that of two events takes
the lock of the older one first, in whichever order they are given.
-/

namespace SyncPoint.Host.Machine

open Relation

/-- How threads ask for the locks of events. -/
structure LocksInOrder (s : Machine) : Prop where
  /-- A thread asks for the lock of an event that is newer than all whose locks it holds. -/
  ascending : ∀ t event o, s.asks? t = some (.lock event) → holder s.system o = some t →
    o < event.ordinal
  /-- No thread asks for a lock that it holds. -/
  not_held : ∀ t event, s.asks? t = some (.lock event) →
    holder s.system event.ordinal ≠ some t
  /-- Threads do not wait for each other in a circle. -/
  acyclic : ∀ t, ¬ TransGen s.WaitsFor t t
  /-- Whoever waits is led to a thread in a call that holds a lock and waits for none. -/
  led : ∀ t u, s.WaitsFor t u → ∃ v, TransGen s.WaitsFor t v ∧ s.Holds v ∧
    (s.asks? v).isSome ∧ ∀ w, ¬ s.WaitsFor v w

/-- In every state that threads and workers get to, locks are asked for in order. -/
theorem locks_in_order {s : Machine} (hs : s.Reachable) : LocksInOrder s := by
  have hsound : s.Sound := sound_of_reachable hs
  have hascending : ∀ t event o, s.asks? t = some (.lock event) →
      holder s.system o = some t → o < event.ordinal := by
    intro t event o hasks hholder
    exact hsound.lt_of_asks_lock hasks hholder
  refine ⟨hascending, ?_, hsound.not_waits_for_itself, ?_⟩
  · intro t event hasks hholder
    have hlt : event.ordinal < event.ordinal := hascending t event _ hasks hholder
    omega
  · intro t u hwaits
    obtain ⟨event, -, hholder⟩ := id hwaits
    obtain ⟨v, hchain, ⟨o, hheld⟩, hend⟩ := hsound.waits_end hholder
    obtain ⟨request, hasks⟩ := hsound.asks?_of_holder hheld
    exact ⟨v, TransGen.head' hwaits hchain, ⟨o, hheld⟩, by simp [hasks], hend⟩

/-! ### Measurements in opposite directions -/

namespace Opposed

def constructing : List Turn := [.call 0 (.newEvent .empty), .call 0 (.newEvent .empty)]

def constructed : Machine := reached constructing (start fun _ => 0)

def older : Event := ⟨0, .empty⟩

def newer : Event := ⟨1, .empty⟩

/-- While the newer event is queried, two threads measure both events in opposite directions. -/
def opposing : List Beat :=
  [.enter 2 (.query newer), .ask 2, .enter 0 (.elapsedTime older newer), .ask 0,
    .enter 1 (.elapsedTime newer older)]

def opposed : Machine := playedTo opposing constructed

end Opposed

open Opposed in
theorem locks_in_order_opposed :
    opposed.WaitsFor 1 0 ∧ opposed.WaitsFor 0 2 ∧ ¬ TransGen opposed.WaitsFor 1 1 ∧
      ∃ v, TransGen opposed.WaitsFor 1 v ∧ opposed.Holds v ∧ ∀ w, ¬ opposed.WaitsFor v w := by
  have hconstructed : Run (start fun _ => 0) _ constructed := run_reached (by decide)
  have hopposed : Run constructed _ opposed := run_playedTo (by decide)
  have hordered : LocksInOrder opposed := locks_in_order ⟨_, _, hconstructed.trans hopposed⟩
  have hfirst : opposed.WaitsFor 1 0 := ⟨older, rfl, rfl⟩
  obtain ⟨v, hchain, hholds, -, hend⟩ := hordered.led 1 0 hfirst
  exact ⟨hfirst, ⟨newer, rfl, rfl⟩, hordered.acyclic 1, v, hchain, hholds, hend⟩

end SyncPoint.Host.Machine
