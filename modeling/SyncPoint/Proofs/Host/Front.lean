import SyncPoint.Proofs.Host.Dependence

/-!
# The front of a line

Once all that a command depends on has run, the command is the first in its queue's line that has
not, and only a closed gate can keep its worker from going on (`Sound.step?_ne_none`).  Each step of
that worker then leaves less to do for it (`toGo_lt_of_works`), and nobody else's step changes how
much is left (`toGo_eq`).
-/

namespace SyncPoint.Host.World

variable {w w' : World} {c : CommandRef} {q : QueueRef}

/-- What is left to do for a command at the front of its queue's line. -/
def toGo (w : World) (c : CommandRef) : Nat :=
  match (w.queue (w.command c).queue).worker with
  | .idle => w.cost c
  | place => w.workerCost place

/-- All that the command depends on has run, and it has not. -/
structure Due (w : World) (c : CommandRef) : Prop where
  exist : c < w.commands.length
  pending : w.status c = .pending
  free : ∀ d, w.DependsOn c d → w.status d = .complete

namespace Sound

/-- A command that is due is the first of its queue's line. -/
theorem front_of_due (h : w.Sound) (hdue : w.Due c) :
    ∃ rest, (w.queue (w.command c).queue).worker.holding ++
      (w.queue (w.command c).queue).inbox = c :: rest := by
  obtain ⟨q, hq⟩ : ∃ q, q = (w.command c).queue := ⟨_, rfl⟩
  rw [← hq]
  have hmem : c ∈ (w.queue q).worker.holding ++ (w.queue q).inbox := by
    have haccepted : c ∈ w.accepted q := mem_accepted.2 ⟨hdue.exist, hq.symm⟩
    rw [h.line q] at haccepted
    rcases List.mem_append.1 haccepted with hdone | hwaiting
    · have hcomplete : w.status c = .complete := by simpa using (List.mem_filter.1 hdone).2
      rw [hdue.pending] at hcomplete
      cases hcomplete
    · exact hwaiting
  cases hline : (w.queue q).worker.holding ++ (w.queue q).inbox with
  | nil => simp [hline] at hmem
  | cons d rest =>
    refine ⟨rest, ?_⟩
    rw [hline] at hmem
    rcases List.mem_cons.1 hmem with rfl | hrest
    · rfl
    · -- a command before it would have run
      have hsorted := w.accepted_sorted q
      rw [h.line q, hline] at hsorted
      have hdc := (List.pairwise_cons.1 (List.pairwise_append.1 hsorted).2.1).1 c hrest
      have hd : d ∈ (w.queue q).worker.holding ++ (w.queue q).inbox := by simp [hline]
      have hdq := (mem_accepted.1 (h.mem_accepted_of_mem hd)).2
      have hcomplete := hdue.free d (.inr ⟨hdc, hdq.trans hq⟩)
      rw [h.pending_of_mem hd] at hcomplete
      cases hcomplete

/-- Only a closed gate keeps a worker from going on with a command that is due. -/
theorem step?_ne_none (h : w.Sound) (hdue : w.Due c)
    (hopen : (w.queue (w.command c).queue).paused = false) :
    w.step? (w.command c).queue ≠ none := by
  intro hstuck
  rcases h.held_back hdue.exist hdue.pending hstuck with ⟨-, hpaused⟩ | ⟨d, -, hdepends, hpending⟩
  · rw [hopen] at hpaused
    cases hpaused
  · rw [hdue.free d hdepends] at hpending
    cases hpending

end Sound

/-- A step of its worker completes a command that is due, or leaves less to do for it. -/
theorem toGo_lt_of_works (h : w.Sound) (hdue : w.Due c) (hworks : w.Works (w.command c).queue w') :
    w'.status c = .complete ∨ w'.toGo c < w.toGo c := by
  obtain ⟨rest, hfront⟩ := h.front_of_due hdue
  have hqueue := (Grows.of_works h hworks).queue_command hdue.exist
  obtain ⟨q, hq⟩ : ∃ q, q = (w.command c).queue := ⟨_, rfl⟩
  rw [toGo, toGo, hqueue]
  rw [← hq] at hworks hfront ⊢
  have hlt := hworks.lt
  cases hworks with
  | receive hplace hinbox =>
    refine .inr ?_
    rw [hplace, hinbox] at hfront
    obtain rfl := (List.cons.inj hfront).1
    rw [w.queue_setQueue_self hlt, hplace]
    simp only [workerCost, cost, command_setQueue]
    omega
  | enter hplace =>
    refine .inr ?_
    rw [setWorker, w.queue_setQueue_self hlt, hplace]
    simp only [workerCost, command_setQueue]
    omega
  | pass hplace =>
    refine .inr ?_
    rw [setWorker, w.queue_setQueue_self hlt, hplace]
    simp only [workerCost, command_setQueue, List.length_cons]
    omega
  | start hplace =>
    refine .inr ?_
    rw [setWorker, queue_setQueue_self _ (by simpa using hlt), hplace]
    simp only [workerCost, List.length_nil]
    omega
  | @act _ _ action rest' hplace =>
    refine .inr ?_
    have hless := length_remainingAfter_le action rest'
    rw [w.queue_setQueue_self hlt, hplace]
    simp only [workerCost, List.length_cons]
    omega
  | stop hplace =>
    refine .inr ?_
    rw [setWorker, queue_setQueue_self _ (by simpa using hlt), hplace]
    simp only [workerCost, List.length_nil]
    omega
  | complete hplace =>
    refine .inl ?_
    rw [hplace] at hfront
    obtain rfl := (List.cons.inj hfront).1
    exact (status_setCommand_complete hdue.exist _ _).2 (.inl rfl)

/-! ## What others do -/

theorem Works.queue_of_ne {r : QueueRef} (h : w.Works r w') (hq : q ≠ r) :
    w'.queue q = w.queue q := by
  cases h with
  | receive | enter | pass | act => exact w.queue_setQueue_of_ne hq _
  | start | stop => rw [setWorker, queue_setQueue_of_ne _ hq, queue_stamp]
  | complete => rw [setWorker, queue_setQueue_of_ne _ hq, queue_setCommand]

/-- Callers do not move workers. -/
theorem Called.worker (h : w.Called w') (hq : q < w.queues.length) :
    (w'.queue q).worker = (w.queue q).worker := by
  -- whichever queue changes keeps its worker
  have hset : ∀ (r : QueueRef) (queue : Queue), queue.worker = (w.queue r).worker →
      ((w.setQueue r queue).queue q).worker = (w.queue q).worker := by
    intro r queue hsame
    rcases w.queue_setQueue_cases r queue q with hr | ⟨rfl, hr⟩ <;> rw [hr]
    exact hsame
  cases h with
  | addQueue config => rw [w.queue_addQueue_of_lt config hq]
  | cloneHandle r | dropHandle r | setPaused r _ | shutdown r => exact hset r _ rfl
  | submit command =>
    cases htakes : w.takes command.queue with
    | false =>
      rw [state_of_not_takes htakes]
    | true =>
      by_cases hr : q = command.queue
      · subst q
        rw [queue_submit_self htakes]
      · rw [queue_submit_of_ne htakes hr]

/-- A command that is due stays due until it has run. -/
theorem Due.grows (hdue : w.Due c) (hgrows : w.Grows w') (hpending : w'.status c = .pending) :
    w'.Due c where
  exist := Nat.lt_of_lt_of_le hdue.exist hgrows.commands_le
  pending := hpending
  free d hd := hgrows.status (hdue.free d (hd.of_grows hgrows hdue.exist))

/-- How much is left to do for a command that is due depends on its worker only. -/
theorem toGo_eq (h : w.Sound) (hdue : w.Due c) (hgrows : w.Grows w')
    (hworker : (w'.queue (w.command c).queue).worker = (w.queue (w.command c).queue).worker) :
    w'.toGo c = w.toGo c := by
  obtain ⟨rest, hfront⟩ := h.front_of_due hdue
  have hwaitList := hgrows.waitList_command hdue.exist
  have hwork : (w'.command c).work = (w.command c).work := by rw [hgrows.command c hdue.exist]
  rw [toGo, toGo, hgrows.queue_command hdue.exist, hworker]
  cases hplace : (w.queue (w.command c).queue).worker with
  | idle => simp only [cost, hwaitList, hwork]
  | atGate d | waiting d =>
    rw [hplace] at hfront
    obtain rfl := (List.cons.inj hfront).1
    simp only [workerCost, hwaitList, hwork]
  | running | finishing => rfl

end SyncPoint.Host.World
