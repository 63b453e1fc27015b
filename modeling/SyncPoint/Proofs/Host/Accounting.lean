import SyncPoint.Proofs.Host.Readings

/-!
# What a queue reads of its own clock

A worker reads the clock twice for every timed command, and for no other.  On a queue with a clock
of its own the two readings of a command are therefore told by its place among the queue's timed
commands, and the clock's position by how many of these have run (`World.Counted`).

Every step of a worker or of a caller keeps the account (`Counted.of_works`, `Counted.of_called`):
the queue's worker moves it on in the three steps that read the clock or complete a command, and
nobody else touches it.
-/

namespace SyncPoint.Host

/-- The times of the `j`-th timed command of a queue, counted from zero, by the readings of the
queue's clock. -/
def timesAt (reading : Nat → UInt64) (j : Nat) : Timestamps :=
  ⟨reading (2 * j + 1), reading (2 * j + 2)⟩

/-- How many readings the worker has taken for the command that it holds. -/
def Worker.readings : Worker → Nat
  | .running _ (some _) _ => 1
  | .finishing _ (some _) => 2
  | _ => 0

/-- What the worker has read for the command that it holds belongs to the `n`-th timed one. -/
def Worker.Reads (reading : Nat → UInt64) (n : Nat) : Worker → Prop
  | .running _ (some start) _ => start = (timesAt reading n).start
  | .finishing _ (some times) => times = timesAt reading n
  | _ => True

namespace World

variable {w w' : World} {q r : QueueRef} {c : CommandRef} {reading : Nat → UInt64}

/-- The timed commands of a queue, in the order of acceptance. -/
def timedOf (w : World) (q : QueueRef) : List CommandRef :=
  (w.accepted q).filter fun c => (w.command c).timed

/-- The timed commands of a queue that have run. -/
def timedDone (w : World) (q : QueueRef) : List CommandRef :=
  (w.completed q).filter fun c => (w.command c).timed

/-- The queue has a clock of its own, with these readings. -/
structure OwnClock (w : World) (q : QueueRef) (reading : Nat → UInt64) : Prop where
  exist : q < w.queues.length
  own : (w.queue q).clock ≠ processClock
  reads : ∃ taken, w.clocks[(w.queue q).clock]? = some ⟨reading, taken⟩

/-- Queues run by clocks that exist, and share none but the clock of the process. -/
structure Clocked (w : World) : Prop where
  process : processClock < w.clocks.length
  exist : ∀ q, q < w.queues.length → (w.queue q).clock < w.clocks.length
  apart : ∀ q r, q < w.queues.length → r < w.queues.length → q ≠ r →
    (w.queue q).clock ≠ processClock → (w.queue q).clock ≠ (w.queue r).clock

/-- What a queue read of its own clock is accounted for: two readings for every timed command that
has run, and those that the worker has taken for the command that it holds. -/
structure Counted (w : World) (q : QueueRef) (reading : Nat → UInt64) : Prop where
  clock : w.clocks[(w.queue q).clock]? =
    some ⟨reading, 2 * (w.timedDone q).length + (w.queue q).worker.readings⟩
  held : (w.queue q).worker.Reads reading (w.timedDone q).length
  done : (w.timedDone q).map w.times? =
    (List.range (w.timedDone q).length).map fun j => some (timesAt reading j)

/-! ## Clocks stay as they are shared -/

namespace Clocked

theorem of_grows (h : w.Clocked) (hgrows : w.Grows w') (hqueues : w'.queues.length = w.queues.length)
    (hclocks : w'.clocks.length = w.clocks.length) : w'.Clocked := by
  constructor
  case process => rw [hclocks]; exact h.process
  case exist =>
    intro r hr
    rw [hqueues] at hr
    rw [hclocks, (hgrows.queue r hr).2.2]
    exact h.exist r hr
  case apart =>
    intro r r' hr hr' hne
    rw [hqueues] at hr hr'
    rw [(hgrows.queue r hr).2.2, (hgrows.queue r' hr').2.2]
    exact h.apart r r' hr hr' hne

theorem of_works (h : w.Clocked) (hsound : w.Sound) (hworks : w.Works q w') : w'.Clocked := by
  refine h.of_grows (.of_works hsound hworks) hworks.lengths.1 ?_
  obtain ⟨touch, -, rfl⟩ := hworks.touches
  rw [clocks_touched]
  split <;> simp

/-- The clock of a new queue is that of the process, or new as well. -/
theorem addQueue (h : w.Clocked) (config : QueueConfig) : (w.addQueue config).2.Clocked := by
  obtain ⟨k, hk⟩ : ∃ k, k = (w.addClock config.clock).1 := ⟨_, rfl⟩
  have hcases : ∀ r, r < (w.addQueue config).2.queues.length →
      r < w.queues.length ∧ ((w.addQueue config).2.queue r).clock = (w.queue r).clock ∨
        r = w.queues.length ∧ ((w.addQueue config).2.queue r).clock = k := by
    intro r hr
    rw [length_queues_addQueue] at hr
    rcases Nat.lt_or_eq_of_le (Nat.le_of_lt_succ hr) with hlt | rfl
    · exact .inl ⟨hlt, by rw [queue_addQueue_of_lt _ _ hlt]⟩
    · exact .inr ⟨rfl, by rw [queue_addQueue_self, hk]⟩
  obtain ⟨hle, hlt, hfresh⟩ : w.clocks.length ≤ (w.addQueue config).2.clocks.length ∧
      k < (w.addQueue config).2.clocks.length ∧ (k ≠ processClock → k = w.clocks.length) := by
    have hprocess := h.process
    cases hchoice : config.clock with
    | process => simp [World.addQueue, addClock, hchoice, hk, hprocess]
    | own reading => simp [World.addQueue, addClock, hchoice, hk]
  constructor
  case process => exact Nat.lt_of_lt_of_le h.process hle
  case exist =>
    intro r hr
    rcases hcases r hr with ⟨hold, hclock⟩ | ⟨-, hclock⟩
    · rw [hclock]
      exact Nat.lt_of_lt_of_le (h.exist r hold) hle
    · rw [hclock]
      exact hlt
  case apart =>
    intro r r' hr hr' hne hown
    rcases hcases r hr with ⟨hold, hclock⟩ | ⟨rfl, hclock⟩
    · rw [hclock] at hown ⊢
      rcases hcases r' hr' with ⟨hold', hclock'⟩ | ⟨-, hclock'⟩
      · rw [hclock']
        exact h.apart r r' hold hold' hne hown
      · rw [hclock']
        rintro rfl
        exact absurd (hfresh hown) (Nat.ne_of_lt (h.exist r hold))
    · rw [hclock] at hown ⊢
      rcases hcases r' hr' with ⟨hold', hclock'⟩ | ⟨rfl, -⟩
      · rw [hclock', hfresh hown]
        exact (Nat.ne_of_lt (h.exist r' hold')).symm
      · exact absurd rfl hne

theorem of_called (h : w.Clocked) (hcalled : w.Called w') : w'.Clocked := by
  have hgrows := Grows.of_called hcalled
  cases hcalled with
  | addQueue config => exact h.addQueue config
  | cloneHandle | dropHandle | setPaused | shutdown =>
    exact h.of_grows hgrows (length_queues_setQueue ..) rfl
  | submit command =>
    cases htakes : w.takes command.queue with
    | false =>
      rw [state_of_not_takes htakes]
      exact h
    | true =>
      refine h.of_grows hgrows (length_queues_submit htakes) ?_
      rw [submit_of_takes htakes]
      rfl

theorem empty (process : Nat → UInt64) : (World.empty process).Clocked :=
  ⟨Nat.zero_lt_one, nofun, nofun⟩

end Clocked

/-! ## The account of a queue -/

theorem completed_of_commands (h : w'.commands = w.commands) : w'.completed = w.completed := by
  have hcommand : w'.command = w.command := by
    funext c
    rw [command, command, h]
  refine completed_congr (accepted_congr (by rw [h]) fun c => by rw [hcommand]) ?_
  funext c
  rw [status, status, hcommand]

/-- Only its own worker completes a queue's commands. -/
theorem Works.completed_of_ne (h : w.Works r w') (hsound : w.Sound) (hr : q ≠ r) :
    w'.completed q = w.completed q := by
  cases h with
  | receive | enter | pass | start | act | stop =>
    exact congrFun (completed_of_commands (by simp)) q
  | @complete c times hplace =>
    have hmem : c ∈ w.accepted r := by
      refine hsound.mem_accepted_of_mem (List.mem_append_left _ ?_)
      rw [hplace]
      exact List.mem_cons_self
    have hc := (mem_accepted.1 hmem).1
    have haccepted := accepted_setCommand_complete w c times
    exact Sound.completed_of_ne hmem hr haccepted (status_setCommand_complete hc times)

theorem Called.completed_eq (h : w.Called w') : w'.completed = w.completed := by
  cases h with
  | addQueue config => exact completed_of_commands (w.commands_addQueue config)
  | cloneHandle | dropHandle | setPaused | shutdown => rfl
  | submit command hpending =>
    cases htakes : w.takes command.queue with
    | false =>
      rw [state_of_not_takes htakes]
    | true => exact Sound.completed_submit htakes hpending

/-- The world in which the worker has completed the command. -/
def completing (w : World) (q : QueueRef) (c : CommandRef) (times : Option Timestamps) : World :=
  (w.setCommand c { w.command c with completion := .complete times }).setWorker q .idle

theorem worker_completing (hq : q < w.queues.length) (c : CommandRef) (times : Option Timestamps) :
    ((w.completing q c times).queue q).worker = .idle :=
  congrArg Queue.worker (queue_setQueue_self (w.setCommand c _) hq _)

theorem times?_completing (hc : c < w.commands.length) (times : Option Timestamps) :
    (w.completing q c times).times? c = times :=
  congrArg (·.completion.times?) (w.command_setCommand_self hc _)

/-- A command that completes joins the timed commands that have run, if it is timed. -/
theorem Sound.timedDone_completing (h : w.Sound) {times : Option Timestamps}
    (hplace : (w.queue q).worker = .finishing c times) (hgrows : w.Grows (w.completing q c times)) :
    (w.completing q c times).timedDone q =
      w.timedDone q ++ if (w.command c).timed then [c] else [] := by
  have hholding : (w.queue q).worker.holding = [c] := by rw [hplace, Worker.holding]
  have hc := (h.queue_of_mem_holding (q := q) (c := c) (by simp [hholding])).1
  have hcompleted : (w.completing q c times).completed q = w.completed q ++ [c] :=
    h.completed_append hholding (accepted_setCommand_complete w c times)
      (status_setCommand_complete hc times)
  have hold : ∀ d ∈ w.completed q,
      ((w.completing q c times).command d).timed = (w.command d).timed := by
    intro d hd
    exact hgrows.timed_command (mem_accepted.1 (List.mem_filter.1 hd).1).1
  rw [timedDone, hcompleted, List.filter_append, List.filter_congr hold, List.filter_cons,
    hgrows.timed_command hc, List.filter_nil]
  rfl

theorem mem_timedDone : c ∈ w.timedDone q ↔
    c ∈ w.accepted q ∧ w.status c = .complete ∧ (w.command c).timed = true := by
  simp only [timedDone, completed, List.mem_filter, decide_eq_true_eq, and_assoc]

theorem Grows.timedDone (h : w.Grows w') (hcompleted : w'.completed q = w.completed q) :
    w'.timedDone q = w.timedDone q := by
  rw [World.timedDone, World.timedDone, hcompleted]
  refine List.filter_congr fun c hc => ?_
  have hlt := (mem_accepted.1 (List.mem_filter.1 hc).1).1
  rw [h.timed_command hlt]

theorem Grows.map_times? (h : w.Grows w') :
    (w.timedDone q).map w'.times? = (w.timedDone q).map w.times? := by
  refine List.map_congr_left fun c hc => ?_
  exact h.times?_of_complete (mem_timedDone.1 hc).2.1

namespace Counted

/-- Where no timed command completes, only the worker's part of the account has to be looked at. -/
theorem of_grows (h : w.Counted q reading) (hgrows : w.Grows w') (hq : q < w.queues.length)
    (hdone : w'.timedDone q = w.timedDone q)
    (hclock : w'.clocks[(w.queue q).clock]? =
      some ⟨reading, 2 * (w.timedDone q).length + (w'.queue q).worker.readings⟩)
    (hheld : (w'.queue q).worker.Reads reading (w.timedDone q).length) :
    w'.Counted q reading := by
  constructor
  case clock => rw [(hgrows.queue q hq).2.2, hdone]; exact hclock
  case held => rw [hdone]; exact hheld
  case done => rw [hdone, hgrows.map_times?]; exact h.done

/-- Whoever leaves the queue's worker, its clock and its commands alone leaves the account as it
was. -/
theorem of_same (h : w.Counted q reading) (hgrows : w.Grows w') (hq : q < w.queues.length)
    (hcompleted : w'.completed q = w.completed q)
    (hclock : w'.clocks[(w.queue q).clock]? = w.clocks[(w.queue q).clock]?)
    (hworker : (w'.queue q).worker = (w.queue q).worker) : w'.Counted q reading := by
  refine h.of_grows hgrows hq (hgrows.timedDone hcompleted) ?_ ?_
  · rw [hclock, hworker]
    exact h.clock
  · rw [hworker]
    exact h.held

theorem of_works_of_ne (h : w.Counted q reading) (hsound : w.Sound) (hworks : w.Works r w')
    (hr : q ≠ r) (hq : q < w.queues.length) (hapart : (w.queue q).clock ≠ (w.queue r).clock) :
    w'.Counted q reading := by
  refine h.of_same (.of_works hsound hworks) hq (hworks.completed_of_ne hsound hr) ?_
    (congrArg Queue.worker (hworks.queue_of_ne hr))
  obtain ⟨touch, -, rfl⟩ := hworks.touches
  exact clock_touched_of_ne hapart.symm

theorem of_called (h : w.Counted q reading) (hcalled : w.Called w') (hq : q < w.queues.length) :
    w'.Counted q reading := by
  have hlt := (List.getElem?_eq_some_iff.1 h.clock).1
  exact h.of_same (.of_called hcalled) hq (congrFun hcalled.completed_eq q)
    (hcalled.clock_eq hlt) (hcalled.worker hq)

/-- A reading of the queue's clock is the next one. -/
theorem clock_read (h : w.Counted q reading) (timed : Bool) :
    (w.stamp q timed).1 =
      (if timed then some (reading (2 * (w.timedDone q).length + (w.queue q).worker.readings + 1))
        else none) ∧
    (w.stamp q timed).2.clocks[(w.queue q).clock]? =
      some ⟨reading, 2 * (w.timedDone q).length + (w.queue q).worker.readings +
        if timed then 1 else 0⟩ := by
  cases timed with
  | false => exact ⟨rfl, h.clock⟩
  | true =>
    have hlt := (List.getElem?_eq_some_iff.1 h.clock).1
    simp only [stamp, readClock, h.clock, Clock.read, if_true]
    exact ⟨trivial, List.getElem?_set_self hlt⟩

/-- A command that is completed joins the account, if it is timed. -/
theorem completing (h : w.Counted q reading) (hsound : w.Sound) (htimed : w.Timed)
    {times : Option Timestamps} (hplace : (w.queue q).worker = .finishing c times) :
    (w.completing q c times).Counted q reading := by
  have hworks : w.Works q (w.completing q c times) := .complete hplace
  have hgrows := Grows.of_works hsound hworks
  have hq := hworks.lt
  have hmem : c ∈ (w.queue q).worker.holding := by
    rw [hplace]
    exact List.mem_cons_self
  have hc := (hsound.queue_of_mem_holding hmem).1
  have hdone := hsound.timedDone_completing hplace hgrows
  have hworker := worker_completing hq c times
  have hstamped : times.isSome = (w.command c).timed := htimed.stamped.finishing q c times hplace
  have hclock := h.clock
  have hheld := h.held
  rw [← hstamped] at hdone
  rw [hplace] at hclock hheld
  cases times with
  | none =>
    refine h.of_grows hgrows hq (hdone.trans (List.append_nil _)) ?_ ?_
    · rw [hworker]
      exact hclock
    · rw [hworker]
      trivial
  | some times =>
    replace hdone : (w.completing q c (some times)).timedDone q = w.timedDone q ++ [c] := hdone
    have hlength := congrArg List.length hdone
    rw [List.length_append, List.length_singleton] at hlength
    constructor
    case clock =>
      rw [hlength, hworker, (hgrows.queue q hq).2.2]
      exact hclock
    case held =>
      rw [hworker]
      trivial
    case done =>
      have hnew := times?_completing (q := q) hc (some times)
      rw [hlength, hdone, List.map_append, hgrows.map_times?, h.done, List.range_succ,
        List.map_append, List.map_singleton, List.map_singleton, hnew, hheld]

/-- The queue's worker moves the account on. -/
theorem of_works (h : w.Counted q reading) (hsound : w.Sound) (htimed : w.Timed)
    (hworks : w.Works q w') : w'.Counted q reading := by
  have hq := hworks.lt
  have hgrows := Grows.of_works hsound hworks
  have hclock := h.clock
  have hheld := h.held
  have hread := h.clock_read
  cases hworks with
  | receive hplace | enter hplace | pass hplace =>
    rw [hplace] at hclock
    refine h.of_grows hgrows hq (hgrows.timedDone rfl) ?_ ?_
    · simp only [setWorker, w.queue_setQueue_self hq]
      exact hclock
    · simp only [setWorker, w.queue_setQueue_self hq]
      trivial
  | @start c hplace =>
    have hqueue : (((w.stamp q (w.command c).timed).2.setWorker q
        (.running c (w.stamp q (w.command c).timed).1 (w.command c).work)).queue q).worker =
          .running c (w.stamp q (w.command c).timed).1 (w.command c).work := by
      rw [setWorker, queue_setQueue_self _ (by simpa using hq)]
    obtain ⟨hstart, hticked⟩ := hread (w.command c).timed
    rw [hplace] at hstart hticked
    have hdone := hgrows.timedDone (congrFun (completed_of_commands (by simp)) q)
    refine h.of_grows hgrows hq hdone ?_ ?_
    · refine hticked.trans ?_
      rw [hqueue, hstart]
      cases (w.command c).timed <;> rfl
    · rw [hqueue, hstart]
      cases (w.command c).timed
      · trivial
      · rfl
  | @act c start action rest hplace =>
    rw [hplace] at hclock hheld
    refine h.of_grows hgrows hq (hgrows.timedDone rfl) ?_ ?_
    · rw [w.queue_setQueue_self hq]
      cases start <;> exact hclock
    · rw [w.queue_setQueue_self hq]
      cases start
      · trivial
      · exact hheld
  | @stop c start hplace =>
    have hqueue : (((w.stamp q start.isSome).2.setWorker q
        (.finishing c (pairTimes? start (w.stamp q start.isSome).1))).queue q).worker =
          .finishing c (pairTimes? start (w.stamp q start.isSome).1) := by
      rw [setWorker, queue_setQueue_self _ (by simpa using hq)]
    obtain ⟨hstop, hticked⟩ := hread start.isSome
    rw [hplace] at hstop hticked hheld
    have hdone := hgrows.timedDone (congrFun (completed_of_commands (by simp)) q)
    refine h.of_grows hgrows hq hdone ?_ ?_
    · refine hticked.trans ?_
      rw [hqueue, hstop]
      cases start <;> rfl
    · rw [hqueue, hstop]
      cases start with
      | none => trivial
      | some begun => exact congrArg (Timestamps.mk · _) hheld
  | complete hplace => exact h.completing hsound htimed hplace

end Counted

/-- The times of a timed command are told by its place among the timed commands of its queue. -/
theorem Counted.times?_of_complete (h : w.Counted q reading) (hsound : w.Sound) {j : Nat}
    (hj : (w.timedOf q)[j]? = some c) (hcomplete : w.status c = .complete) :
    w.times? c = some (timesAt reading j) := by
  have hline : w.timedOf q = w.timedDone q ++
      ((w.queue q).worker.holding ++ (w.queue q).inbox).filter fun c => (w.command c).timed := by
    rw [timedOf, timedDone, ← List.filter_append, ← hsound.line q]
  rw [hline] at hj
  rcases Nat.lt_or_ge j (w.timedDone q).length with hlt | hge
  · rw [List.getElem?_append_left hlt] at hj
    have htimes : ((w.timedDone q).map w.times?)[j]? = some (w.times? c) := by
      rw [List.getElem?_map, hj]
      rfl
    rw [h.done, List.getElem?_map, List.getElem?_range hlt] at htimes
    exact (Option.some.inj htimes).symm
  · rw [List.getElem?_append_right hge] at hj
    have hmem := (List.mem_filter.1 (List.mem_of_getElem? hj)).1
    rw [hsound.pending_of_mem hmem] at hcomplete
    cases hcomplete

/-! ## The accounts of all queues -/

theorem Clocked.ownClock_addQueue (h : w.Clocked) {config : QueueConfig}
    (hchoice : config.clock = .own reading) :
    (w.addQueue config).2.OwnClock w.queues.length reading := by
  have hclock : ((w.addQueue config).2.queue w.queues.length).clock = w.clocks.length := by
    simp [queue_addQueue_self, addClock, hchoice]
  refine ⟨by simp, ?_, 0, ?_⟩
  · rw [hclock]
    exact (Nat.ne_of_lt h.process).symm
  · rw [hclock]
    simp [World.addQueue, addClock, hchoice]

/-- A queue keeps the clock that it has. -/
theorem OwnClock.grows (h : w.OwnClock q reading) (hgrows : w.Grows w') (hticks : w.Ticks w') :
    w'.OwnClock q reading := by
  obtain ⟨hexist, hown, taken, hreads⟩ := h
  have hclock := (hgrows.queue q hexist).2.2
  obtain ⟨n, hlater⟩ := hticks _ _ hreads
  refine ⟨Nat.lt_of_lt_of_le hexist hgrows.queues_le, ?_, taken + n, ?_⟩
  · rw [hclock]
    exact hown
  · rw [hclock]
    exact hlater

/-- A queue had the clock that it has from the beginning. -/
theorem OwnClock.of_later (h : w'.OwnClock q reading) (hclocked : w.Clocked) (hgrows : w.Grows w')
    (hticks : w.Ticks w') (hq : q < w.queues.length) : w.OwnClock q reading := by
  have hclock := (hgrows.queue q hq).2.2
  obtain ⟨clock, hreads⟩ : ∃ clock, w.clocks[(w.queue q).clock]? = some clock :=
    ⟨_, List.getElem?_eq_getElem (hclocked.exist q hq)⟩
  obtain ⟨n, hlater⟩ := hticks _ _ hreads
  obtain ⟨-, hown, taken, hreads'⟩ := h
  rw [hclock] at hown hreads'
  rw [hlater] at hreads'
  obtain rfl : clock.reading = reading := congrArg Clock.reading (Option.some.inj hreads')
  exact ⟨hq, hown, clock.taken, hreads⟩

/-- Every queue with a clock of its own has its readings accounted for. -/
structure Accounted (w : World) : Prop where
  clocked : w.Clocked
  counted : ∀ q reading, w.OwnClock q reading → w.Counted q reading

/-- A queue that is made with a clock of its own has read nothing. -/
theorem Sound.counted_addQueue (h : w.Sound) {config : QueueConfig}
    (hown : (w.addQueue config).2.OwnClock w.queues.length reading) :
    (w.addQueue config).2.Counted w.queues.length reading := by
  have hqueue := w.queue_addQueue_self config
  obtain ⟨-, hnotProcess, taken, hreads⟩ := hown
  rw [hqueue] at hnotProcess hreads
  cases hchoice : config.clock with
  | process => exact absurd (by rw [hchoice]; rfl) hnotProcess
  | own reading' =>
    -- the queue is new, so no command is its own
    have hnone : (w.addQueue config).2.timedDone w.queues.length = [] := by
      refine List.eq_nil_iff_forall_not_mem.2 fun c hc => ?_
      obtain ⟨hlt, hcq⟩ := mem_accepted.1 (mem_timedDone.1 hc).1
      have hcommands := w.commands_addQueue config
      rw [hcommands] at hlt
      have howner := h.owner c hlt
      rw [command, hcommands] at hcq
      exact absurd hcq (Nat.ne_of_lt howner)
    have hclock : (w.addQueue config).2.clocks[w.clocks.length]? = some ⟨reading', 0⟩ := by
      simp [World.addQueue, addClock, hchoice]
    simp only [hchoice, addClock] at hreads
    obtain rfl : reading' = reading :=
      congrArg Clock.reading (Option.some.inj (hclock.symm.trans hreads))
    constructor
    case clock =>
      rw [hqueue, hnone]
      simp only [hchoice, addClock]
      exact hclock
    case held =>
      rw [hqueue]
      trivial
    case done =>
      rw [hnone]
      rfl

namespace Accounted

theorem of_works (h : w.Accounted) (hsound : w.Sound) (htimed : w.Timed) (hworks : w.Works r w') :
    w'.Accounted := by
  refine ⟨h.clocked.of_works hsound hworks, fun q reading hown => ?_⟩
  have hq : q < w.queues.length := hworks.lengths.1 ▸ hown.exist
  have hbefore := hown.of_later h.clocked (.of_works hsound hworks) (.of_works hworks) hq
  have hcounted := h.counted q reading hbefore
  by_cases hr : q = r
  · subst r
    exact hcounted.of_works hsound htimed hworks
  · exact hcounted.of_works_of_ne hsound hworks hr hq
      (h.clocked.apart q r hq hworks.lt hr hbefore.own)

theorem of_called (h : w.Accounted) (hsound : w.Sound) (hcalled : w.Called w') : w'.Accounted := by
  refine ⟨h.clocked.of_called hcalled, fun q reading hown => ?_⟩
  rcases Nat.lt_or_ge q w.queues.length with hq | hq
  · have hbefore := hown.of_later h.clocked (.of_called hcalled) (.of_called hcalled) hq
    exact (h.counted q reading hbefore).of_called hcalled hq
  · have hexist := hown.exist
    cases hcalled with
    | addQueue config =>
      rw [length_queues_addQueue] at hexist
      obtain rfl : q = w.queues.length := Nat.le_antisymm (Nat.le_of_lt_succ hexist) hq
      exact hsound.counted_addQueue hown
    | cloneHandle | dropHandle | setPaused | shutdown =>
      exact absurd (Nat.lt_of_lt_of_eq hexist (length_queues_setQueue ..)) (Nat.not_lt.2 hq)
    | submit command =>
      cases htakes : w.takes command.queue with
      | false =>
        rw [state_of_not_takes htakes] at hexist
        exact absurd hexist (Nat.not_lt.2 hq)
      | true =>
        rw [length_queues_submit htakes] at hexist
        exact absurd hexist (Nat.not_lt.2 hq)

theorem empty (process : Nat → UInt64) : (World.empty process).Accounted :=
  ⟨.empty process, fun _ _ hown => absurd hown.exist (Nat.not_lt_zero _)⟩

end Accounted

end World

end SyncPoint.Host
