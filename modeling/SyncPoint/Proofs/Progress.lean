import SyncPoint.Proofs.Machine.Fairness
import SyncPoint.Proofs.Machine.Schedule

/-!
# No deadlock

Whatever commands wait for, in whatever directions, workers do not hold one another up for ever
(`Machine.no_deadlock`).  A command waits only for older ones, so that following what holds it back
leads to the oldest that is held back, and that one stands before a closed gate.  With no gate
closed every command runs and every wait ends, both where nobody makes calls any more and where
calls go on and whoever can go on does.

All this is relied on for: work ends, it makes no calls on queues, events or tables itself
(`Action`), and what it panics with can be dropped (`Machine.Allows.droppable`).  Work that does not
end holds up what comes after it in its queue, and so does work that waits for a command behind it.
A panic that nobody catches ends the worker, and what the queue has taken then never runs.
-/

namespace SyncPoint.Host.Machine

/-- Nothing but a closed gate keeps a command from running or a thread from returning. -/
structure Live (s : Machine) : Prop where
  /-- Workers alone make only so many steps. -/
  bounded : ∀ h s', Run s h s' → (∀ l ∈ h, l.thread? = none) →
    h.length + s'.world.workload ≤ s.world.workload
  /-- So do workers and threads together, as long as no call begins. -/
  settles : Acc GoesOn s
  /-- Where no worker can go on, what holds a command back leads to a closed gate. -/
  held_back : (∀ q, s.world.step? q = none) →
    ∀ c, c < s.world.commands.length → s.world.status c = .pending →
      (s.world.AtClosedGate c ∨ ∃ d, s.world.HeldBackBy c d) ∧
        ∃ d, Relation.ReflTransGen s.world.HeldBackBy c d ∧ s.world.AtClosedGate d
  acyclic : ∀ c, ¬ Relation.TransGen s.world.HeldBackBy c c
  /-- Where no worker can go on and no gate is closed, every command has run. -/
  complete : s.world.Open → (∀ q, s.world.step? q = none) →
    ∀ c, c < s.world.commands.length → s.world.status c = .complete
  /-- With no gate closed, a machine at rest has run every command and ended every call. -/
  ends : s.world.Open → ∀ h s', Run s h s' → (∀ l ∈ h, ∀ t call, l ≠ .enter t call) →
    (∀ s'', ¬ GoesOn s'' s') →
      (∀ c, c < s'.world.commands.length → s'.world.status c = .complete) ∧ ∀ t, s'.Idle t
  /-- While calls go on, with no gate closed from some moment on, every command runs in the end. -/
  runs : ∀ x l, Course x l → x 0 = s → (∃ k, ∀ n, k ≤ n → (x n).world.Open) →
    ∀ n c, c < (x n).world.commands.length → ∃ m, n ≤ m ∧ (x m).world.status c = .complete
  /-- And every wait for a command ends. -/
  answers : ∀ x l, Course x l → x 0 = s → (∃ k, ∀ n, k ≤ n → (x n).world.Open) →
    ∀ n t call c next queues,
      (x n).tasks t = some ⟨call, .ask (.engine (.await c)) next, queues⟩ →
        ∃ m, n ≤ m ∧ l m = some (.ask t (.engine (.await c)))

variable {s : Machine}

/-- Whatever a machine got to, nothing waits for ever but for a closed gate. -/
theorem no_deadlock (h : s.Reachable) : s.Live := by
  have hsound := sound_of_reachable h
  have hcourse : ∀ x l, Course x l → x 0 = s → ∀ n, (x n).Sound := by
    rintro x l hcourse rfl
    exact hcourse.sound hsound
  refine ⟨fun h s' hrun hworkers => hrun.length_le_workload hworkers, acc_goesOn h, ?_,
    hsound.world.not_held_back_by_itself, fun hopen hstuck c hc =>
      hsound.world.complete_of_stuck hstuck hopen hc, ?_, ?_, ?_⟩
  · intro hstuck c hc hpending
    exact ⟨hsound.world.held_back hc hpending (hstuck _),
      hsound.world.held_back_at_gate hstuck hc hpending⟩
  · intro hopen h s' hrun hcall hrest
    exact (hsound.of_run hrun).done_of_rest hrest (hrun.keeps_open hcall hopen)
  · rintro x l hx hs ⟨k, hopen⟩ n c hc
    exact hx.completes (hcourse x l hx hs) hopen hc
  · rintro x l hx hs ⟨k, hopen⟩ n t call c next queues htask
    exact hx.answers (hcourse x l hx hs) hopen htask

/-! ### Queues that wait for each other -/

namespace Crossed

/-- Work on each of two queues, with each queue made to wait for the other's, the first of them
behind a closed gate, and both workers until they cannot go on. -/
def crossing : List Turn :=
  [.call 0 (.newQueue {}), .call 0 (.newQueue {}), .call 0 (.newEvent .empty),
    .call 0 (.newEvent .empty), .call 0 (.setPaused 0 true),
    .call 0 (.enqueueWork 0 [.push 1]), .call 0 (.record ⟨0, .empty⟩ 0),
    .call 0 (.streamWait ⟨0, .empty⟩ 1), .call 0 (.enqueueWork 1 [.push 2]),
    .call 0 (.record ⟨1, .empty⟩ 1), .call 0 (.streamWait ⟨1, .empty⟩ 0),
    .call 0 (.enqueueWork 0 [.push 3]), .worker 0, .worker 1, .worker 1]

def crossed : Machine := reached crossing (start fun _ => 0)

def opening : List Turn := [.call 0 (.setPaused 0 false)]

def opened : Machine := reached opening crossed

theorem run_crossed : Run (start fun _ => 0) (told crossing (start fun _ => 0)) crossed :=
  run_reached (by decide)

theorem run_opened : Run crossed (told opening crossed) opened := run_reached (by decide)

end Crossed

open Crossed in
theorem no_deadlock_crossed :
    (∃ d, Relation.ReflTransGen crossed.world.HeldBackBy 4 d ∧ crossed.world.AtClosedGate d) ∧
      ∃ x l, Course x l ∧ x 0 = opened ∧ ∃ m, (x m).world.status 4 = .complete := by
  have hcrossed : crossed.Reachable := ⟨_, _, run_crossed⟩
  have hopened : opened.Reachable := ⟨_, _, run_crossed.trans run_opened⟩
  have hstuck : ∀ q, crossed.world.step? q = none := by
    intro q
    have hnone : ∀ r, r < crossed.world.queues.length → (crossed.world.step? r).isNone := by decide
    cases hstep : crossed.world.step? q with
    | none => rfl
    | some w =>
      have hq := hnone q (World.lt_of_step?_eq_some hstep)
      rw [hstep] at hq
      cases hq
  refine ⟨((no_deadlock hcrossed).held_back hstuck 4 (by decide) (by decide)).2, ?_⟩
  obtain ⟨x, l, hcourse, hx, hcall⟩ := exists_course hopened
  have hopen : opened.world.Open := show ∀ q, q < opened.world.queues.length →
    (opened.world.queue q).paused = false by decide
  have hruns := (no_deadlock hopened).runs x l hcourse hx
    ⟨0, fun n _ => hcourse.keeps_open hcall (hx ▸ hopen) n⟩ 0 4 (hx ▸ by decide)
  obtain ⟨m, -, hcomplete⟩ := hruns
  exact ⟨x, l, hcourse, hx, m, hcomplete⟩

end SyncPoint.Host.Machine
