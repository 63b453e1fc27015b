import Mathlib.Logic.Relation
import SyncPoint.Proofs.Host.Growth

/-!
# What a command depends on

A command depends on those before it in its queue and on those of its wait-list.  All of them have
run before its worker reads the clock for it (`Sound.complete_of_executing`), and a worker that
cannot go on is held up by one of them or by its gate (`Sound.held_back`).  As dependencies are
older, following them comes to an end (`Sound.lt_of_dependsOn`).
-/

namespace SyncPoint.Host

/-- The command that a worker at this place executes with its next step: it reads the clock for it,
does its work or completes it. -/
def Worker.executing? : Worker → Option CommandRef
  | .waiting c [] | .running c _ _ | .finishing c _ => some c
  | _ => none

theorem Worker.mem_holding_of_executing? {worker : Worker} {c : CommandRef}
    (h : worker.executing? = some c) : c ∈ worker.holding := by
  unfold Worker.executing? at h
  split at h <;> cases h <;> simp [Worker.holding]

namespace World

/-- `d` is before `c` in its queue, or `c` waits for it. -/
def DependsOn (w : World) (c d : CommandRef) : Prop :=
  d ∈ (w.command c).waitList ∨ d < c ∧ (w.command d).queue = (w.command c).queue

/-- `d` is `c`, or something that `c` depends on, directly or not. -/
abbrev Requires (w : World) : CommandRef → CommandRef → Prop :=
  Relation.ReflTransGen w.DependsOn

/-- `c` has not run, and neither has `d`, on which it depends. -/
def HeldBackBy (w : World) (c d : CommandRef) : Prop :=
  w.status c = .pending ∧ w.DependsOn c d ∧ w.status d = .pending

/-- The worker of its queue has received `c` and stands with it before a closed gate. -/
def AtClosedGate (w : World) (c : CommandRef) : Prop :=
  (w.queue (w.command c).queue).worker = .atGate c ∧
    (w.queue (w.command c).queue).paused = true

/-- No queue that was ever made is paused, not even one that was shut down or dropped. -/
def Open (w : World) : Prop := ∀ q, q < w.queues.length → (w.queue q).paused = false

variable {w w' : World} {c d : CommandRef}

theorem Open.paused (h : w.Open) (q : QueueRef) : (w.queue q).paused = false := by
  rcases Nat.lt_or_ge q w.queues.length with hq | hq
  · exact h q hq
  · rw [w.queue_of_le hq]
    rfl

theorem requires_of_le (hdc : d ≤ c) (hqueue : (w.command d).queue = (w.command c).queue) :
    w.Requires c d := by
  rcases Nat.lt_or_eq_of_le hdc with hlt | rfl
  · exact .single (.inr ⟨hlt, hqueue⟩)
  · exact .refl

theorem DependsOn.grows (h : w.DependsOn c d) (hgrows : w.Grows w') (hc : c < w.commands.length) :
    w'.DependsOn c d := by
  rcases h with h | ⟨hdc, hqueue⟩
  · exact .inl (by rwa [hgrows.waitList_command hc])
  · refine .inr ⟨hdc, ?_⟩
    rw [hgrows.queue_command (Nat.lt_trans hdc hc), hgrows.queue_command hc, hqueue]

/-- A command comes to depend on nothing later. -/
theorem DependsOn.of_grows (h : w'.DependsOn c d) (hgrows : w.Grows w')
    (hc : c < w.commands.length) : w.DependsOn c d := by
  rcases h with h | ⟨hdc, hqueue⟩
  · exact .inl (by rwa [hgrows.waitList_command hc] at h)
  · rw [hgrows.queue_command (Nat.lt_trans hdc hc), hgrows.queue_command hc] at hqueue
    exact .inr ⟨hdc, hqueue⟩

namespace Sound

variable (h : w.Sound)
include h

theorem lt_of_dependsOn (hd : w.DependsOn c d) : d < c := by
  rcases hd with hd | hd
  · rcases Nat.lt_or_ge c w.commands.length with hc | hc
    · exact h.older c hc d hd
    · rw [w.command_of_le hc] at hd
      cases hd
  · exact hd.1

theorem le_of_requires (hd : w.Requires c d) : d ≤ c := by
  induction hd with
  | refl => exact Nat.le_refl _
  | tail _ hstep ih => exact Nat.le_trans (Nat.le_of_lt (h.lt_of_dependsOn hstep)) ih

/-- Dependencies are settled once and for all when a command is accepted. -/
theorem requires_grows (hgrows : w.Grows w') (hc : c < w.commands.length)
    (hd : w.Requires c d) : w'.Requires c d := by
  induction hd with
  | refl => exact .refl
  | tail hpath hstep ih =>
    exact ih.tail (hstep.grows hgrows (Nat.lt_of_le_of_lt (h.le_of_requires hpath) hc))

theorem complete_of_dependsOn (hc : w.status c = .complete) (hd : w.DependsOn c d) :
    w.status d = .complete := by
  rcases hd with hd | ⟨hdc, hqueue⟩
  · exact h.released c hc d hd
  · exact h.complete_of_lt hc hdc hqueue

/-- Whatever a command that has run depends on has run. -/
theorem complete_of_requires (hc : w.status c = .complete) (hd : w.Requires c d) :
    w.status d = .complete := by
  induction hd with
  | refl => exact hc
  | tail _ hstep ih => exact h.complete_of_dependsOn ih hstep

theorem queue_of_mem_holding {q : QueueRef} (hc : c ∈ (w.queue q).worker.holding) :
    c < w.commands.length ∧ (w.command c).queue = q :=
  mem_accepted.1 (h.mem_accepted_of_mem (List.mem_append_left _ hc))

/-- Before a worker reads the clock for a command, all that it depends on has run. -/
theorem complete_of_executing {q : QueueRef} (hc : (w.queue q).worker.executing? = some c)
    (hd : w.DependsOn c d) : w.status d = .complete := by
  have hholding := Worker.mem_holding_of_executing? hc
  obtain ⟨hlt, hqueue⟩ := h.queue_of_mem_holding hholding
  rcases hd with hd | ⟨hdc, hdq⟩
  · have hwaited := h.waited q
    unfold Worker.executing? at hc
    split at hc
    next hplace =>
      cases hc
      rw [hplace] at hwaited
      obtain ⟨passed, hsplit, hpassed⟩ := hwaited
      rw [hsplit, List.append_nil] at hd
      exact hpassed d hd
    next hplace => cases hc; rw [hplace] at hwaited; exact hwaited d hd
    next hplace => cases hc; rw [hplace] at hwaited; exact hwaited d hd
    next => cases hc
  · exact h.complete_of_lt_holding hholding
      (mem_accepted.2 ⟨Nat.lt_trans hdc hlt, hdq.trans hqueue⟩) hdc

theorem complete_of_executing_of_requires {q : QueueRef}
    (hc : (w.queue q).worker.executing? = some c) (hd : w.Requires c d) (hne : d ≠ c) :
    w.status d = .complete := by
  rcases hd.cases_head with rfl | ⟨e, hce, hed⟩
  · exact absurd rfl hne
  · exact h.complete_of_requires (h.complete_of_executing hc hce) hed

/-- Commands in the inbox of a queue depend on the one that its worker holds. -/
theorem dependsOn_of_mem_inbox {q : QueueRef} (hc : c ∈ (w.queue q).inbox)
    (hd : d ∈ (w.queue q).worker.holding) : w.DependsOn c d := by
  have hsorted := w.accepted_sorted q
  rw [h.line q] at hsorted
  have hdc := (List.pairwise_append.1 (List.pairwise_append.1 hsorted).2.1).2.2 d hd c hc
  have hcq := mem_accepted.1 (h.mem_accepted_of_mem (List.mem_append_right _ hc))
  exact .inr ⟨hdc, (h.queue_of_mem_holding hd).2.trans hcq.2.symm⟩

/-- A worker that cannot go on has nothing to do, stands before a closed gate, or waits for a
command that has not run. -/
theorem place_of_step?_eq_none {q : QueueRef} (hstuck : w.step? q = none) :
    ((w.queue q).worker = .idle ∧ (w.queue q).inbox = []) ∨
      (∃ c, (w.queue q).worker = .atGate c ∧ (w.queue q).paused = true) ∨
      ∃ c d rest, (w.queue q).worker = .waiting c (d :: rest) ∧ w.status d = .pending := by
  rw [step?_of_alive (h.alive q), advance?] at hstuck
  split at hstuck
  next hplace =>
    split at hstuck
    next hinbox => exact .inl ⟨hplace, hinbox⟩
    next => cases hstuck
  next c hplace =>
    split at hstuck
    next hpaused => exact .inr (.inl ⟨c, hplace, hpaused⟩)
    next => cases hstuck
  next c d rest hplace =>
    split at hstuck
    next => cases hstuck
    next hstatus =>
      refine .inr (.inr ⟨c, d, rest, hplace, ?_⟩)
      cases hd : w.status d with
      | pending => rfl
      | complete => exact absurd hd hstatus
  all_goals cases hstuck

/-- Where its worker cannot go on, a command that has not run stands before its queue's closed gate
or depends on another one that has not. -/
theorem held_back (hc : c < w.commands.length) (hpending : w.status c = .pending)
    (hstuck : w.step? (w.command c).queue = none) :
    w.AtClosedGate c ∨ ∃ d, w.HeldBackBy c d := by
  unfold AtClosedGate
  obtain ⟨q, hq⟩ : ∃ q, q = (w.command c).queue := ⟨_, rfl⟩
  rw [← hq] at hstuck ⊢
  have hline : c ∈ (w.queue q).worker.holding ++ (w.queue q).inbox := by
    have hmem : c ∈ w.accepted q := mem_accepted.2 ⟨hc, hq.symm⟩
    rw [h.line q] at hmem
    rcases List.mem_append.1 hmem with hmem | hmem
    · have hdone : w.status c = .complete := by simpa using (List.mem_filter.1 hmem).2
      rw [hpending] at hdone
      cases hdone
    · exact hmem
  -- behind a command that its worker holds, it depends on that one
  have hbehind : ∀ d, (w.queue q).worker.holding = [d] → c ∈ (w.queue q).inbox →
      w.HeldBackBy c d := by
    intro d hd hinbox
    have hmem : d ∈ (w.queue q).worker.holding := by simp [hd]
    exact ⟨hpending, h.dependsOn_of_mem_inbox hinbox hmem,
      h.pending_of_mem (List.mem_append_left _ hmem)⟩
  rcases h.place_of_step?_eq_none hstuck with ⟨hplace, hinbox⟩ | ⟨e, hplace, hpaused⟩ |
    ⟨e, d, rest, hplace, hd⟩
  · simp [hplace, hinbox, Worker.holding] at hline
  · rw [hplace, Worker.holding] at hline
    rcases List.mem_cons.1 hline with rfl | hinbox
    · exact .inl ⟨hplace, hpaused⟩
    · exact .inr ⟨e, hbehind e (by rw [hplace, Worker.holding]) hinbox⟩
  · rw [hplace, Worker.holding] at hline
    rcases List.mem_cons.1 hline with rfl | hinbox
    · have hwaited := h.waited q
      rw [hplace] at hwaited
      obtain ⟨passed, hsplit, -⟩ := hwaited
      exact .inr ⟨d, hpending, .inl (by simp [hsplit]), hd⟩
    · exact .inr ⟨e, hbehind e (by rw [hplace, Worker.holding]) hinbox⟩

/-- Following what holds a command back comes to an end, before a closed gate. -/
theorem held_back_at_gate (hstuck : ∀ q, w.step? q = none) (hc : c < w.commands.length)
    (hpending : w.status c = .pending) :
    ∃ d, Relation.ReflTransGen w.HeldBackBy c d ∧ w.AtClosedGate d := by
  induction c using Nat.strongRecOn with
  | _ c ih =>
    rcases h.held_back hc hpending (hstuck _) with hgate | ⟨d, hheld⟩
    · exact ⟨c, .refl, hgate⟩
    · have hdc := h.lt_of_dependsOn hheld.2.1
      obtain ⟨e, hpath, hgate⟩ := ih d hdc (Nat.lt_trans hdc hc) hheld.2.2
      exact ⟨e, .head hheld hpath, hgate⟩

/-- Nothing holds itself back. -/
theorem not_held_back_by_itself (c : CommandRef) : ¬ Relation.TransGen w.HeldBackBy c c := by
  intro hcycle
  have hlt : ∀ d, Relation.TransGen w.HeldBackBy c d → d < c := by
    intro d hpath
    induction hpath with
    | single hheld => exact h.lt_of_dependsOn hheld.2.1
    | tail _ hheld ih => exact Nat.lt_trans (h.lt_of_dependsOn hheld.2.1) ih
  exact Nat.lt_irrefl c (hlt c hcycle)

/-- Where no worker can go on and no gate is closed, everything has run. -/
theorem complete_of_stuck (hstuck : ∀ q, w.step? q = none) (hopen : w.Open)
    (hc : c < w.commands.length) : w.status c = .complete := by
  cases hstatus : w.status c with
  | complete => rfl
  | pending =>
    obtain ⟨d, -, -, hpaused⟩ := h.held_back_at_gate hstuck hc hstatus
    rw [hopen.paused] at hpaused
    cases hpaused

end Sound

end World

end SyncPoint.Host
