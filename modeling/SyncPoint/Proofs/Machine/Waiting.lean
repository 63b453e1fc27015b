import Mathlib.Logic.Relation
import SyncPoint.Proofs.Machine.Termination

/-!
# Who waits for whom

A thread waits for another one if it asks for the lock of an event that the other holds
(`Machine.WaitsFor`).  Locks are taken in the order of construction, so along a chain of waiting
threads the events get newer: the chain never comes back to where it began
(`Machine.Sound.not_waits_for_itself`), and it ends with a thread that holds a lock and waits for
none (`Machine.Sound.waits_end`).
-/

namespace SyncPoint.Host.Machine

open Relation

/-- What a thread asks, if it is in a call. -/
def asks? (s : Machine) (t : ThreadId) : Option Request :=
  match s.tasks t with
  | some ⟨_, .ask request _, _⟩ => some request
  | _ => none

/-- The thread asks for the lock of an event that the other thread holds. -/
def WaitsFor (s : Machine) (t u : ThreadId) : Prop :=
  ∃ event, s.asks? t = some (.lock event) ∧ holder s.system event.ordinal = some u

/-- The thread holds the lock of some event. -/
def Holds (s : Machine) (t : ThreadId) : Prop := ∃ o, holder s.system o = some t

variable {s : Machine} {t u v : ThreadId} {request : Request} {event : Event} {o : Nat}

theorem asks?_of_task {call : Call} {next : request.Answer → Program call.Result}
    {queues : List QueueRef} (htask : s.tasks t = some ⟨call, .ask request next, queues⟩) :
    s.asks? t = some request := by
  simp [asks?, htask]

theorem task_of_asks? (hasks : s.asks? t = some request) :
    ∃ call next queues, s.tasks t = some ⟨call, .ask request next, queues⟩ := by
  unfold asks? at hasks
  split at hasks
  next call request' next queues htask =>
    cases hasks
    exact ⟨call, next, queues, htask⟩
  next => cases hasks

namespace Sound

variable (h : s.Sound)
include h

/-- What a thread asks respects what it has to, where it holds the locks that it holds. -/
theorem permitted_of_asks? (hasks : s.asks? t = some request) :
    ∃ held, (∀ o, o ∈ held ↔ holder s.system o = some t) ∧
      request.Permitted held (extent s.system) := by
  obtain ⟨call, next, queues, htask⟩ := task_of_asks? hasks
  obtain ⟨held, hheld, hconduct⟩ := h.conduct t
  exact ⟨held, hheld, (hconduct.of_task htask).1⟩

/-- A thread that holds a lock is in a call. -/
theorem asks?_of_holder (hholder : holder s.system o = some t) :
    ∃ request, s.asks? t = some request := by
  obtain ⟨held, hheld, hconduct⟩ := h.conduct t
  have hmem : o ∈ held := (hheld o).2 hholder
  have hbusy : ¬ s.Idle t := by
    intro hidle
    rw [hconduct.eq_nil hidle] at hmem
    cases hmem
  obtain ⟨call, request, next, queues, htask⟩ := exists_task_of_not_idle hbusy
  exact ⟨request, asks?_of_task htask⟩

/-- A thread asks for the locks of events that were constructed after those whose locks it has. -/
theorem lt_of_asks_lock (hasks : s.asks? t = some (.lock event))
    (hholder : holder s.system o = some t) : o < event.ordinal := by
  obtain ⟨held, hheld, hpermitted⟩ := h.permitted_of_asks? hasks
  exact hpermitted.2 o ((hheld o).2 hholder)

theorem exists_of_asks_lock (hasks : s.asks? t = some (.lock event)) :
    event.ordinal < s.system.cells.length := by
  obtain ⟨held, hheld, hpermitted⟩ := h.permitted_of_asks? hasks
  exact hpermitted.1

/-- Who stands at the end of a chain holds an event that is no older than the one asked for at its
beginning. -/
theorem le_of_waits (hwaits : TransGen s.WaitsFor t u) (hasks : s.asks? t = some (.lock event)) :
    ∃ o, event.ordinal ≤ o ∧ holder s.system o = some u := by
  induction hwaits with
  | single hfirst =>
    obtain ⟨other, hother, hholder⟩ := hfirst
    cases hasks.symm.trans hother
    exact ⟨event.ordinal, Nat.le_refl _, hholder⟩
  | tail _ hlast ih =>
    obtain ⟨o, hle, hholder⟩ := ih
    obtain ⟨other, hother, hholder'⟩ := hlast
    have hlt : o < other.ordinal := h.lt_of_asks_lock hother hholder
    exact ⟨other.ordinal, by omega, hholder'⟩

/-- No thread waits for itself, through however many others. -/
theorem not_waits_for_itself (t : ThreadId) : ¬ TransGen s.WaitsFor t t := by
  intro hcycle
  obtain ⟨u, ⟨event, hasks, -⟩, -⟩ := TransGen.head'_iff.1 hcycle
  obtain ⟨o, hle, hholder⟩ := h.le_of_waits hcycle hasks
  have hlt : o < event.ordinal := h.lt_of_asks_lock hasks hholder
  omega

/-- From whoever holds a lock, waiting leads to a thread that holds one and waits for none. -/
theorem waits_end (hholder : holder s.system o = some t) :
    ∃ u, ReflTransGen s.WaitsFor t u ∧ s.Holds u ∧ ∀ v, ¬ s.WaitsFor u v := by
  -- by induction on how many events come after the one that is held
  obtain ⟨k, hk⟩ : ∃ k, s.system.cells.length - o = k := ⟨_, rfl⟩
  induction k using Nat.strongRecOn generalizing t o with
  | _ k ih =>
    by_cases hwaits : ∃ v, s.WaitsFor t v
    · obtain ⟨v, event, hasks, hholder'⟩ := hwaits
      have hlater : o < event.ordinal := h.lt_of_asks_lock hasks hholder
      have hexists : event.ordinal < s.system.cells.length := h.exists_of_asks_lock hasks
      obtain ⟨u, hchain, hholds, hend⟩ := ih _ (by omega) hholder' rfl
      exact ⟨u, .head ⟨event, hasks, hholder'⟩ hchain, hholds, hend⟩
    · exact ⟨t, .refl, ⟨o, hholder⟩, not_exists.1 hwaits⟩

end Sound

end SyncPoint.Host.Machine
