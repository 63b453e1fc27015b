/-!
# Supervised runs and polling

A computation that may panic runs under supervision: the supervisor hands on its result, or its
panic as it is.  A condition that another party makes true is polled until it holds.
-/

namespace SyncPoint

/-- What a panic carries. -/
inductive PanicPayload
  | text (message : String)
  | other
  /-- What is no text and panics itself when it is dropped. -/
  | explosive
  deriving DecidableEq, Repr

namespace PanicPayload

/-- The text of a panic, if it carries one. -/
def message? : PanicPayload → Option String
  | text message => some message
  | other | explosive => none

/-- The text under which a panic is reported. -/
def report (payload : PanicPayload) : String :=
  payload.message?.getD "unknown panic payload"

end PanicPayload

namespace Supervision

/-- How a computation ends. -/
inductive Outcome (α : Type)
  | returned (value : α)
  | panicked (payload : PanicPayload)
  deriving DecidableEq, Repr

/-- A computation, by the time it takes and how it ends. -/
structure Computation (α : Type) where
  milliseconds : Nat
  outcome : Outcome α
  deriving DecidableEq, Repr

/-- How long a supervisor waits, in milliseconds. -/
def patience : Nat := 10000

/-- Runs a computation aside. If it ends in time, its result is a result and its panic goes on
with the same payload; otherwise the supervisor panics. -/
def watch {α : Type} (computation : Computation α) : Outcome α :=
  if computation.milliseconds < patience then computation.outcome
  else .panicked (.text "test exceeded the 10s watchdog timeout")

/-- What polling found out. -/
structure Polled where
  held : Bool
  polls : Nat
  deriving DecidableEq, Repr

/-- Polls a condition, which is given the number of the poll, until it holds, and rests for a
millisecond after each poll in vain. Once its patience is at an end it asks a last time and that
answer stands. -/
def eventually (condition : Nat → Bool) : Polled :=
  go patience 1
where
  go : Nat → Nat → Polled
  | 0, poll => ⟨condition poll, poll⟩
  | left + 1, poll => if condition poll then ⟨true, poll⟩ else go left (poll + 1)

/-- A supervised run returns exactly what was returned in time. -/
theorem watch_eq_returned_iff {α : Type} {computation : Computation α} {value : α} :
    watch computation = .returned value ↔
      computation.milliseconds < patience ∧ computation.outcome = .returned value := by
  by_cases htime : computation.milliseconds < patience <;> simp [watch, htime]

variable (condition : Nat → Bool)

/-- Polling ends with the first poll that finds that the condition holds, or with the last one. -/
theorem go_eq (left poll : Nat) : ∃ k ≤ left,
    eventually.go condition left poll = ⟨condition (poll + k), poll + k⟩ ∧
      (∀ j < k, condition (poll + j) = false) ∧ (condition (poll + k) = true ∨ k = left) := by
  induction left generalizing poll with
  | zero => exact ⟨0, Nat.le_refl 0, rfl, nofun, .inr rfl⟩
  | succ left ih =>
    rw [eventually.go]
    cases hpoll : condition poll with
    | true => exact ⟨0, Nat.zero_le _, by simp [hpoll], nofun, .inl hpoll⟩
    | false =>
      obtain ⟨k, hk, hresult, hbefore, hend⟩ := ih (poll + 1)
      have hnext : poll + 1 + k = poll + (k + 1) := Nat.add_right_comm poll 1 k
      rw [hnext] at hresult hend
      refine ⟨k + 1, Nat.succ_le_succ hk, hresult, fun j hj => ?_, hend.imp id (congrArg _)⟩
      cases j with
      | zero => exact hpoll
      | succ j =>
        have hj' := hbefore j (Nat.lt_of_succ_lt_succ hj)
        rwa [Nat.add_right_comm poll 1 j] at hj'

/-- A condition is found to hold exactly if it holds at a poll for which there is patience. -/
theorem held_eventually_iff :
    (eventually condition).held = true ↔ ∃ poll ≤ patience, condition (1 + poll) = true := by
  obtain ⟨k, hk, hresult, hbefore, hend⟩ := go_eq condition patience 1
  rw [eventually, hresult]
  refine ⟨fun hheld => ⟨k, hk, hheld⟩, fun ⟨poll, hpoll, hholds⟩ => ?_⟩
  refine hend.elim id fun hlast => ?_
  -- nothing was left out before the last poll
  obtain rfl : poll = k := by
    refine Nat.le_antisymm (hlast ▸ hpoll) (Nat.le_of_not_lt fun hlt => ?_)
    rw [hbefore poll hlt] at hholds
    cases hholds
  exact hholds

/-- The polls before the last one were in vain. -/
theorem condition_of_lt_polls {poll : Nat} (hfirst : 1 ≤ poll)
    (hpoll : poll < (eventually condition).polls) : condition poll = false := by
  obtain ⟨k, -, hresult, hbefore, -⟩ := go_eq condition patience 1
  rw [eventually, hresult] at hpoll
  obtain ⟨j, rfl⟩ := Nat.exists_eq_add_of_le hfirst
  exact hbefore j (Nat.lt_of_add_lt_add_left hpoll)

end Supervision

end SyncPoint
