import SyncPoint.Proofs.Host.Dependence

/-!
# What a worker's step touches

A worker's step replaces its own queue, takes at most one reading of that queue's clock, and
completes at most the command that the worker holds (`Touch`).  What the step is to be depends on
the queue, on its clock, and on completed commands staying completed; where every queue has a clock
of its own and work looks only at its own queue's trace (`World.Separate`), no other worker's step
changes any of that.  So steps of two workers can be made in either order
(`World.Sound.works_comm`).
-/

namespace SyncPoint.Host

/-- What a worker's step leaves: its queue, whether the queue's clock was read, and the command that
it completed, with its times. -/
structure Touch where
  queue : Queue
  reads : Bool := false
  completes : Option (CommandRef × Option Timestamps) := none

/-- A command once it has run. -/
def Command.completed (command : Command) (times : Option Timestamps) : Command :=
  { command with completion := .complete times }

namespace World

/-- What the next step of a worker leaves. -/
inductive Touches (w : World) (q : QueueRef) : Touch → Prop
  | receive {c : CommandRef} {rest : List CommandRef} (hplace : (w.queue q).worker = .idle)
      (hinbox : (w.queue q).inbox = c :: rest) :
      Touches w q { queue := { w.queue q with inbox := rest, worker := .atGate c } }
  | enter {c : CommandRef} (hplace : (w.queue q).worker = .atGate c)
      (hopen : (w.queue q).paused = false) :
      Touches w q { queue := { w.queue q with worker := .waiting c (w.command c).waitList } }
  | pass {c d : CommandRef} {rest : List CommandRef}
      (hplace : (w.queue q).worker = .waiting c (d :: rest)) (hdone : w.status d = .complete) :
      Touches w q { queue := { w.queue q with worker := .waiting c rest } }
  | start {c : CommandRef} (hplace : (w.queue q).worker = .waiting c []) :
      Touches w q
        { queue := { w.queue q with
            worker := .running c (w.stamp q (w.command c).timed).1 (w.command c).work }
          reads := (w.command c).timed }
  | act {c : CommandRef} {start : Option UInt64} {action : Action} {rest : List Action}
      (hplace : (w.queue q).worker = .running c start (action :: rest)) :
      Touches w q
        { queue := { w.afterAction (w.queue q) action with
            worker := .running c start (remainingAfter action rest) } }
  | stop {c : CommandRef} {start : Option UInt64}
      (hplace : (w.queue q).worker = .running c start []) :
      Touches w q
        { queue := { w.queue q with
            worker := .finishing c (pairTimes? start (w.stamp q start.isSome).1) }
          reads := start.isSome }
  | complete {c : CommandRef} {times : Option Timestamps}
      (hplace : (w.queue q).worker = .finishing c times) :
      Touches w q { queue := { w.queue q with worker := .idle }, completes := some (c, times) }

/-- The world after a step of the worker of `q` that leaves this. -/
def touched (w : World) (q : QueueRef) (touch : Touch) : World where
  clocks :=
    if touch.reads then w.clocks.modify (w.queue q).clock fun clock => clock.read.2 else w.clocks
  queues := w.queues.set q touch.queue
  commands :=
    match touch.completes with
    | none => w.commands
    | some (c, times) => w.commands.modify c (·.completed times)

variable {w w' w₁ w₂ : World} {q r : QueueRef} {touch : Touch}

/-! ## Steps by what they touch -/

theorem modify_eq_set {α : Type} {l : List α} {i : Nat} {a : α} (h : l[i]? = some a) (f : α → α) :
    l.modify i f = l.set i (f a) := by
  refine List.ext_getElem? fun j => ?_
  rw [List.getElem?_modify]
  by_cases hj : i = j
  · subst j
    rw [h, List.getElem?_set_self (List.getElem?_eq_some_iff.1 h).1]
    simp
  · rw [List.getElem?_set_ne hj]
    simp [hj]

theorem clocks_stamp (w : World) (q : QueueRef) (timed : Bool) :
    (w.stamp q timed).2.clocks =
      if timed then w.clocks.modify (w.queue q).clock fun clock => clock.read.2 else w.clocks := by
  cases timed with
  | false => rfl
  | true =>
    simp only [stamp, readClock, if_true]
    split
    next h => rw [List.modify_eq_self (List.getElem?_eq_none_iff.1 h)]
    next clock h => exact (modify_eq_set h fun clock => clock.read.2).symm

theorem commands_setCommand_complete (w : World) (c : CommandRef) (times : Option Timestamps) :
    (w.setCommand c { w.command c with completion := .complete times }).commands =
      w.commands.modify c (·.completed times) := by
  rcases Nat.lt_or_ge c w.commands.length with hc | hc
  · have hget : w.commands[c]? = some (w.command c) := by simp [command, hc]
    exact (modify_eq_set hget fun command => command.completed times).symm
  · rw [List.modify_eq_self hc, setCommand, List.set_eq_of_length_le hc]

theorem stamp_setWorker (w : World) (q : QueueRef) (timed : Bool) (worker : Worker) :
    (w.stamp q timed).2.setWorker q worker =
      w.touched q { queue := { w.queue q with worker := worker }, reads := timed } := by
  rw [setWorker, queue_stamp, setQueue, clocks_stamp, queues_stamp, commands_stamp]
  rfl

theorem setCommand_setWorker (w : World) (q : QueueRef) (c : CommandRef)
    (times : Option Timestamps) :
    (w.setCommand c { w.command c with completion := .complete times }).setWorker q .idle =
      w.touched q
        { queue := { w.queue q with worker := .idle }, completes := some (c, times) } := by
  rw [setWorker, queue_setCommand, setQueue, commands_setCommand_complete]
  rfl

/-- A step touches something, and does nothing else. -/
theorem Works.touches (h : w.Works q w') : ∃ touch, w.Touches q touch ∧ w' = w.touched q touch := by
  cases h with
  | receive hplace hinbox => exact ⟨_, .receive hplace hinbox, rfl⟩
  | enter hplace hopen => exact ⟨_, .enter hplace hopen, rfl⟩
  | pass hplace hdone => exact ⟨_, .pass hplace hdone, rfl⟩
  | start hplace => exact ⟨_, .start hplace, w.stamp_setWorker ..⟩
  | act hplace => exact ⟨_, .act hplace, rfl⟩
  | stop hplace => exact ⟨_, .stop hplace, w.stamp_setWorker ..⟩
  | complete hplace => exact ⟨_, .complete hplace, w.setCommand_setWorker ..⟩

theorem Touches.works (h : w.Touches q touch) : w.Works q (w.touched q touch) := by
  cases h with
  | receive hplace hinbox => exact .receive hplace hinbox
  | enter hplace hopen => exact .enter hplace hopen
  | pass hplace hdone => exact .pass hplace hdone
  | start hplace => rw [← stamp_setWorker]; exact .start hplace
  | act hplace => exact .act hplace
  | stop hplace => rw [← stamp_setWorker]; exact .stop hplace
  | complete hplace => rw [← setCommand_setWorker]; exact .complete hplace

theorem Works.advance? (h : w.Works q w') : w.advance? q = some w' := by
  cases h with
  | receive hplace hinbox => simp only [World.advance?, hplace, hinbox]
  | enter hplace hopen => simp [World.advance?, hplace, hopen]
  | pass hplace hdone => simp [World.advance?, hplace, hdone]
  | start hplace | act hplace | stop hplace | complete hplace => simp only [World.advance?, hplace]

/-- Whoever makes a step could make it. -/
theorem Works.step? (h : w.Works q w') (hsound : w.Sound) : w.step? q = some w' :=
  (step?_of_alive (hsound.alive q)).trans h.advance?

/-! ## Queues that share nothing -/

/-- Every queue has a clock of its own, and work that has not run looks at no trace but its own
queue's. -/
structure Separate (w : World) : Prop where
  clocks : ∀ q r, q < w.queues.length → r < w.queues.length → q ≠ r →
    (w.queue q).clock ≠ (w.queue r).clock
  traces : ∀ c, c < w.commands.length → w.status c = .pending →
    ∀ q, .see q ∈ (w.command c).work → q = (w.command c).queue

/-- The next step of the worker of `q` looks at no trace but that of `q`. -/
def LooksHome (w : World) (q : QueueRef) : Prop :=
  ∀ c start other rest, (w.queue q).worker = .running c start (.see other :: rest) → other = q

theorem stamp_congr (timed : Bool) (hqueue : w'.queue q = w.queue q)
    (hclock : w'.clocks[(w.queue q).clock]? = w.clocks[(w.queue q).clock]?) :
    (w'.stamp q timed).1 = (w.stamp q timed).1 := by
  cases timed with
  | false => rfl
  | true =>
    simp only [stamp, readClock, hqueue, hclock]
    split <;> rfl

/-- What a step touches depends on nothing that other workers change. -/
theorem Touches.grows (h : w.Touches q touch) (hsound : w.Sound) (hhome : w.LooksHome q)
    (hgrows : w.Grows w') (hqueue : w'.queue q = w.queue q)
    (hclock : w'.clocks[(w.queue q).clock]? = w.clocks[(w.queue q).clock]?) :
    w'.Touches q touch := by
  -- the command that the worker holds is as before but for its completion
  have hcommand : ∀ c, (w.queue q).worker.holding = [c] →
      w'.command c = { w.command c with completion := (w'.command c).completion } := by
    intro c hc
    have hmem : c ∈ (w.queue q).worker.holding := by simp [hc]
    exact hgrows.command c (hsound.queue_of_mem_holding hmem).1
  cases h with
  | receive hplace hinbox =>
    rw [← hqueue] at hplace hinbox ⊢
    exact .receive hplace hinbox
  | @enter c hplace hopen =>
    have hwait : (w'.command c).waitList = (w.command c).waitList := by
      rw [hcommand c (by rw [hplace]; rfl)]
    rw [← hwait]
    rw [← hqueue] at hplace hopen ⊢
    exact .enter hplace hopen
  | pass hplace hdone =>
    rw [← hqueue] at hplace ⊢
    exact .pass hplace (hgrows.status hdone)
  | @start c hplace =>
    have hsame := hcommand c (by rw [hplace]; rfl)
    have htimed : (w'.command c).timed = (w.command c).timed := by rw [hsame]
    have hwork : (w'.command c).work = (w.command c).work := by rw [hsame]
    rw [← stamp_congr _ hqueue hclock, ← htimed, ← hwork]
    rw [← hqueue] at hplace ⊢
    exact .start hplace
  | @act c start action rest hplace =>
    have hafter : w'.afterAction (w'.queue q) action = w.afterAction (w.queue q) action := by
      rw [hqueue]
      cases action with
      | push | panic => rfl
      | see other =>
        rw [hhome c start other rest hplace]
        simp only [afterAction, hqueue]
    rw [← hafter]
    rw [← hqueue] at hplace
    exact .act hplace
  | stop hplace =>
    rw [← stamp_congr _ hqueue hclock]
    rw [← hqueue] at hplace ⊢
    exact .stop hplace
  | complete hplace =>
    rw [← hqueue] at hplace ⊢
    exact .complete hplace

theorem queue_touched_self (hq : q < w.queues.length) :
    (w.touched q touch).queue q = touch.queue :=
  w.queue_setQueue_self hq touch.queue

theorem queue_touched_of_ne (hr : r ≠ q) : (w.touched q touch).queue r = w.queue r :=
  w.queue_setQueue_of_ne hr touch.queue

theorem clocks_touched (w : World) (q : QueueRef) (touch : Touch) :
    (w.touched q touch).clocks =
      if touch.reads then w.clocks.modify (w.queue q).clock fun clock => clock.read.2
      else w.clocks := rfl

theorem clock_touched_of_ne {k : ClockRef} (hk : (w.queue q).clock ≠ k) :
    (w.touched q touch).clocks[k]? = w.clocks[k]? := by
  cases hreads : touch.reads <;> simp [touched, hreads, hk]

/-- A step completes the command that the worker is about to complete. -/
theorem Touches.finishing {c : CommandRef} {times : Option Timestamps} (h : w.Touches q touch)
    (hcompletes : touch.completes = some (c, times)) :
    (w.queue q).worker = .finishing c times := by
  cases h with
  | complete hplace => cases hcompletes; exact hplace
  | receive | enter | pass | start | act | stop => cases hcompletes

theorem modify_comm {α : Type} {i j : Nat} (hij : i ≠ j) (f g : α → α) (l : List α) :
    (l.modify i f).modify j g = (l.modify j g).modify i f := by
  refine List.ext_getElem? fun k => ?_
  simp only [List.getElem?_modify]
  cases l[k]? with
  | none => rfl
  | some a =>
    by_cases hi : i = k
    · have hj : j ≠ k := fun h => hij (hi.trans h.symm)
      simp [hi, hj]
    · simp [hi]

/-- What two steps leave does not depend on which of them is first. -/
theorem touched_comm {touch' : Touch} (hne : q ≠ r) (hclock : (w.queue q).clock ≠ (w.queue r).clock)
    (hcompletes : ∀ c d times times', touch.completes = some (c, times) →
      touch'.completes = some (d, times') → c ≠ d) :
    (w.touched q touch).touched r touch' = (w.touched r touch').touched q touch := by
  have hq : (w.touched r touch').queue q = w.queue q := queue_touched_of_ne hne
  have hr : (w.touched q touch).queue r = w.queue r := queue_touched_of_ne hne.symm
  have hclocks : ((w.touched q touch).touched r touch').clocks =
      ((w.touched r touch').touched q touch).clocks := by
    simp only [clocks_touched, hq, hr]
    cases touch.reads <;> cases touch'.reads <;> simp [modify_comm hclock]
  have hqueues : ((w.touched q touch).touched r touch').queues =
      ((w.touched r touch').touched q touch).queues :=
    List.set_comm _ _ hne
  have hcommands : ((w.touched q touch).touched r touch').commands =
      ((w.touched r touch').touched q touch).commands := by
    simp only [touched]
    cases hc : touch.completes with
    | none => cases touch'.completes <;> rfl
    | some completed =>
      cases hd : touch'.completes with
      | none => rfl
      | some completed' => exact modify_comm (hcompletes _ _ _ _ hc hd) _ _ _
  cases hone : (w.touched q touch).touched r touch'
  cases hother : (w.touched r touch').touched q touch
  rw [hone, hother] at hclocks hqueues hcommands
  congr

/-- Steps of two workers can be made in either order, with one outcome. -/
theorem Sound.works_comm (hsound : w.Sound) (hseparate : w.Separate) (hne : q ≠ r)
    (hq : w.LooksHome q) (hr : w.LooksHome r) (h₁ : w.Works q w₁) (h₂ : w.Works r w₂) :
    ∃ w', w₁.Works r w' ∧ w₂.Works q w' := by
  have hclock := hseparate.clocks q r h₁.lt h₂.lt hne
  have hgrows₁ := Grows.of_works hsound h₁
  have hgrows₂ := Grows.of_works hsound h₂
  obtain ⟨touch, htouch, rfl⟩ := h₁.touches
  obtain ⟨touch', htouch', rfl⟩ := h₂.touches
  have hother := htouch'.grows hsound hr hgrows₁ (queue_touched_of_ne hne.symm)
    (clock_touched_of_ne hclock)
  have hone := htouch.grows hsound hq hgrows₂ (queue_touched_of_ne hne)
    (clock_touched_of_ne hclock.symm)
  refine ⟨_, hother.works, ?_⟩
  rw [touched_comm hne hclock]
  · exact hone.works
  · -- the two workers hold commands of different queues
    rintro c d times times' hc hd rfl
    have hcq : c ∈ (w.queue q).worker.holding := by simp [htouch.finishing hc, Worker.holding]
    have hcr : c ∈ (w.queue r).worker.holding := by simp [htouch'.finishing hd, Worker.holding]
    exact hne ((hsound.queue_of_mem_holding hcq).2.symm.trans (hsound.queue_of_mem_holding hcr).2)

@[simp] theorem length_queues_touched (w : World) (q : QueueRef) (touch : Touch) :
    (w.touched q touch).queues.length = w.queues.length :=
  List.length_set

@[simp] theorem length_commands_touched (w : World) (q : QueueRef) (touch : Touch) :
    (w.touched q touch).commands.length = w.commands.length := by
  rw [touched]
  cases touch.completes <;> simp

/-- A command that has run after a step and had not before is the one that the worker was about to
complete, with the times that it had for it. -/
theorem Works.completes {c : CommandRef} (h : w.Works q w') (hpending : w.status c = .pending)
    (hcomplete : w'.status c = .complete) :
    ∃ times, (w.queue q).worker = .finishing c times ∧ w'.times? c = times := by
  obtain ⟨touch, htouch, rfl⟩ := h.touches
  cases hcompletes : touch.completes with
  | none =>
    have hsame : (w.touched q touch).command c = w.command c := by
      simp [command, touched, hcompletes]
    rw [status, hsame] at hcomplete
    rw [status, hcomplete] at hpending
    cases hpending
  | some completed =>
    obtain ⟨d, times⟩ := completed
    have hcommand : (w.touched q touch).command c =
        if d = c then (w.command c).completed times else w.command c := by
      have hc := lt_of_status_eq_complete hcomplete
      rw [length_commands_touched] at hc
      by_cases hdc : d = c <;> simp [command, touched, hcompletes, hc, hdc]
    by_cases hdc : d = c
    · subst d
      refine ⟨times, htouch.finishing hcompletes, ?_⟩
      rw [times?, hcommand, if_pos rfl]
      rfl
    · rw [status, hcommand, if_neg hdc] at hcomplete
      rw [status, hcomplete] at hpending
      cases hpending

/-- Workers make no queues and hand over no commands. -/
theorem Works.lengths (h : w.Works q w') :
    w'.queues.length = w.queues.length ∧ w'.commands.length = w.commands.length := by
  obtain ⟨touch, -, rfl⟩ := h.touches
  exact ⟨length_queues_touched .., length_commands_touched ..⟩

/-- Workers do not make queues share anything. -/
theorem Separate.of_works (h : w.Separate) (hsound : w.Sound) (hw : w.Works q w') :
    w'.Separate := by
  have hgrows := Grows.of_works hsound hw
  obtain ⟨hqueues, hcommands⟩ := hw.lengths
  refine ⟨fun r r' hr hr' hne => ?_, fun c hc hpending r hr => ?_⟩
  · rw [hqueues] at hr hr'
    rw [(hgrows.queue r hr).2.2, (hgrows.queue r' hr').2.2]
    exact h.clocks r r' hr hr' hne
  · rw [hcommands] at hc
    rw [hgrows.command c hc] at hr ⊢
    refine h.traces c hc ?_ r hr
    cases hstatus : w.status c with
    | pending => rfl
    | complete =>
      rw [hgrows.status hstatus] at hpending
      cases hpending

end World

end SyncPoint.Host
