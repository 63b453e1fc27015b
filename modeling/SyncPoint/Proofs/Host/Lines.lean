import SyncPoint.Proofs.Host.Changes

/-!
# The line of a queue

The commands that a queue accepted stand in line: first those that have run, then the one that the
worker holds, then those in the inbox (`Sound.line`).  With it goes what makes a worker's progress
mean something: past its wait-list a command has only completed commands behind it, and a wait-list
names older commands only.  All workers are alive, as no work that was handed over can end one.
Every step of a worker or of a caller keeps all this (`Sound.of_works`, `Sound.of_called`).

The invariant says nothing about clocks, traces, handles or gates: none of them has a part in the
order.
-/

namespace SyncPoint.Host

/-- The command that a worker holds, if there is one. -/
def Worker.holding : Worker → List CommandRef
  | .idle => []
  | .atGate c | .waiting c _ | .running c _ _ | .finishing c _ => [c]

namespace World

/-- The commands of a queue that have run, in the order of acceptance. -/
def completed (w : World) (q : QueueRef) : List CommandRef :=
  (w.accepted q).filter fun c => w.status c = .complete

/-- What a worker has waited for by the time it is at this place. -/
def Waited (w : World) : Worker → Prop
  | .waiting c remaining => ∃ passed, (w.command c).waitList = passed ++ remaining ∧
      ∀ d ∈ passed, w.status d = .complete
  | .running c _ _ | .finishing c _ => ∀ d ∈ (w.command c).waitList, w.status d = .complete
  | _ => True

/-- What holds in every world that workers and callers can reach. -/
structure Sound (w : World) : Prop where
  owner : ∀ c, c < w.commands.length → (w.command c).queue < w.queues.length
  older : ∀ c, c < w.commands.length → ∀ d ∈ (w.command c).waitList, d < c
  line : ∀ q, w.accepted q = w.completed q ++ ((w.queue q).worker.holding ++ (w.queue q).inbox)
  newest : ∀ q, (w.queue q).last = (w.accepted q).getLast?
  waited : ∀ q, w.Waited (w.queue q).worker
  released : ∀ c, w.status c = .complete → ∀ d ∈ (w.command c).waitList, w.status d = .complete
  numbered : ∀ q, q < w.queues.length → (w.queue q).id = ⟨UInt64.ofNat (q + 1)⟩
  few : w.queues.length < UInt64.size
  alive : ∀ q, (w.queue q).alive = true
  droppable : ∀ c, .panic .explosive ∉ (w.command c).work
  remaining : ∀ q, .panic .explosive ∉ (w.queue q).worker.remaining

/-! ## Accepted commands -/

theorem mem_accepted {w : World} {q : QueueRef} {c : CommandRef} :
    c ∈ w.accepted q ↔ c < w.commands.length ∧ (w.command c).queue = q := by
  simp [accepted]

theorem accepted_sorted (w : World) (q : QueueRef) : (w.accepted q).Pairwise (· < ·) :=
  List.pairwise_lt_range.filter _

theorem accepted_nodup (w : World) (q : QueueRef) : (w.accepted q).Nodup :=
  (w.accepted_sorted q).imp Nat.ne_of_lt

/-- The order of acceptance reads only how many commands there are and whose they are. -/
theorem accepted_congr {w w' : World} (hlength : w'.commands.length = w.commands.length)
    (hqueue : ∀ c, (w'.command c).queue = (w.command c).queue) : w'.accepted = w.accepted := by
  funext q
  simp only [accepted, hlength, hqueue]

theorem completed_congr {w w' : World} (haccepted : w'.accepted = w.accepted)
    (hstatus : w'.status = w.status) : w'.completed = w.completed := by
  funext q
  simp only [completed, haccepted, hstatus]

theorem waited_congr {w w' : World} (worker : Worker)
    (hwait : ∀ c ∈ worker.holding, (w'.command c).waitList = (w.command c).waitList)
    (hstatus : ∀ d, w.status d = .complete → w'.status d = .complete)
    (h : w.Waited worker) : w'.Waited worker := by
  cases worker with
  | idle | atGate => trivial
  | waiting c remaining =>
    obtain ⟨passed, hsplit, hpassed⟩ := h
    exact ⟨passed, (hwait c (by simp [Worker.holding])).trans hsplit,
      fun d hd => hstatus d (hpassed d hd)⟩
  | running c _ _ | finishing c _ =>
    intro d hd
    rw [hwait c (by simp [Worker.holding])] at hd
    exact hstatus d (h d hd)

/-- Completing a command adds it to those that have run. -/
theorem status_setCommand_complete {w : World} {c : CommandRef} (hc : c < w.commands.length)
    (times : Option Timestamps) (d : CommandRef) :
    (w.setCommand c { w.command c with completion := .complete times }).status d = .complete ↔
      d = c ∨ w.status d = .complete := by
  by_cases hd : d = c
  · simp [hd, status, w.command_setCommand_self hc, Completion.status]
  · simp [hd, status, w.command_setCommand_of_ne hd]

theorem accepted_setCommand_complete (w : World) (c : CommandRef) (times : Option Timestamps) :
    (w.setCommand c { w.command c with completion := .complete times }).accepted = w.accepted := by
  refine accepted_congr (by simp) fun d => ?_
  rcases Nat.lt_or_ge c w.commands.length with hc | hc
  · by_cases hd : d = c
    · rw [hd, w.command_setCommand_self hc]
    · rw [w.command_setCommand_of_ne hd]
  · rw [setCommand, List.set_eq_of_length_le hc]

/-- What a filter leaves over does not pass it. -/
theorem not_of_eq_filter_append {α : Type} {p : α → Bool} {l rest : List α}
    (h : l = l.filter p ++ rest) {x : α} (hx : x ∈ rest) : p x = false := by
  have hfilter : l.filter p = l.filter p ++ rest.filter p := by
    conv => lhs; rw [h, List.filter_append, List.filter_filter]
    simp
  have hrest : rest.filter p = [] := by simpa using hfilter
  simpa using List.filter_eq_nil_iff.1 hrest x hx

namespace Sound

variable {w : World}

/-- The commands that a worker holds or will receive have not run. -/
theorem pending_of_mem (h : w.Sound) {q : QueueRef} {c : CommandRef}
    (hc : c ∈ (w.queue q).worker.holding ++ (w.queue q).inbox) : w.status c = .pending := by
  have hnot := not_of_eq_filter_append (h.line q) hc
  cases hstatus : w.status c with
  | pending => rfl
  | complete => simp [hstatus] at hnot

theorem mem_accepted_of_mem (h : w.Sound) {q : QueueRef} {c : CommandRef}
    (hc : c ∈ (w.queue q).worker.holding ++ (w.queue q).inbox) : c ∈ w.accepted q := by
  rw [h.line q]
  exact List.mem_append_right _ hc

/-- Whatever stands before a command that its worker holds has run. -/
theorem complete_of_lt_holding (h : w.Sound) {q : QueueRef} {c d : CommandRef}
    (hc : c ∈ (w.queue q).worker.holding) (hd : d ∈ w.accepted q) (hdc : d < c) :
    w.status d = .complete := by
  have hsorted := w.accepted_sorted q
  have hholding : (w.queue q).worker.holding = [c] := by
    cases hworker : (w.queue q).worker <;> simp_all [Worker.holding]
  rw [h.line q, hholding] at hd hsorted
  rcases List.mem_append.1 hd with hd | hd
  · simpa using (List.mem_filter.1 hd).2
  · rcases List.mem_cons.1 hd with rfl | hd
    · exact absurd hdc (Nat.lt_irrefl d)
    · have hcd := (List.pairwise_cons.1 (List.pairwise_append.1 hsorted).2.1).1 d hd
      exact absurd hdc (Nat.lt_asymm hcd)

/-- Commands of one queue run in order. -/
theorem complete_of_lt (h : w.Sound) {c d : CommandRef} (hc : w.status c = .complete)
    (hdc : d < c) (hqueue : (w.command d).queue = (w.command c).queue) :
    w.status d = .complete := by
  have hlt := lt_of_status_eq_complete hc
  have hcmem : c ∈ w.accepted (w.command c).queue := mem_accepted.2 ⟨hlt, rfl⟩
  have hdmem : d ∈ w.accepted (w.command c).queue := mem_accepted.2 ⟨Nat.lt_trans hdc hlt, hqueue⟩
  have hsorted := w.accepted_sorted (w.command c).queue
  rw [h.line] at hcmem hdmem hsorted
  rcases List.mem_append.1 hdmem with hd | hd
  · simpa using (List.mem_filter.1 hd).2
  · rcases List.mem_append.1 hcmem with hc' | hc'
    · have hcd := (List.pairwise_append.1 hsorted).2.2 c hc' d hd
      exact absurd hdc (Nat.lt_asymm hcd)
    · rw [h.pending_of_mem hc'] at hc
      cases hc

/-! ## Steps keep the line -/

/-- Clocks have no part in it. -/
theorem stamp (h : w.Sound) (q : QueueRef) (timed : Bool) : (w.stamp q timed).2.Sound := by
  have hqueue := w.queue_stamp q timed
  have hcommand := w.command_stamp q timed
  have hstatus : (w.stamp q timed).2.status = w.status := funext fun c => by simp [status]
  have haccepted : (w.stamp q timed).2.accepted = w.accepted :=
    accepted_congr (by simp) fun c => by rw [hcommand]
  have hcompleted := completed_congr haccepted hstatus
  constructor
  case owner => simpa [hcommand] using h.owner
  case older => simpa [hcommand] using h.older
  case line => simpa [haccepted, hcompleted] using h.line
  case newest => simpa [haccepted] using h.newest
  case waited =>
    intro r
    rw [hqueue]
    exact waited_congr _ (fun c _ => by rw [hcommand]) (fun d hd => by rw [hstatus]; exact hd)
      (h.waited r)
  case released => simpa [hcommand, hstatus] using h.released
  case numbered => simpa using h.numbered
  case few => simpa using h.few
  case alive => simpa using h.alive
  case droppable => simpa [hcommand] using h.droppable
  case remaining => simpa using h.remaining

/-- A queue may change in whatever has no part in the line, and its worker may go on as long as
the worker and the inbox together have the same commands. -/
theorem setQueue (h : w.Sound) {q : QueueRef} {queue : Queue}
    (hline : queue.worker.holding ++ queue.inbox =
      (w.queue q).worker.holding ++ (w.queue q).inbox)
    (hlast : queue.last = (w.queue q).last) (hid : queue.id = (w.queue q).id)
    (hwaited : w.Waited queue.worker) (halive : queue.alive = true)
    (hremaining : .panic .explosive ∉ queue.worker.remaining) : (w.setQueue q queue).Sound := by
  have hcases := w.queue_setQueue_cases q queue
  constructor
  case older => exact h.older
  case released => exact h.released
  case owner => simpa using h.owner
  case line =>
    intro r
    rcases hcases r with hr | ⟨rfl, hr⟩
    · rw [hr]; exact h.line r
    · rw [hr, hline]; exact h.line r
  case newest =>
    intro r
    rcases hcases r with hr | ⟨rfl, hr⟩
    · rw [hr]; exact h.newest r
    · rw [hr, hlast]; exact h.newest r
  case waited =>
    intro r
    rcases hcases r with hr | ⟨rfl, hr⟩
    · rw [hr]; exact h.waited r
    · rw [hr]; exact hwaited
  case numbered =>
    intro r hr'
    rcases hcases r with hr | ⟨rfl, hr⟩
    · rw [hr]; exact h.numbered r (by simpa using hr')
    · rw [hr, hid]; exact h.numbered r (by simpa using hr')
  case few => simpa using h.few
  case alive =>
    intro r
    rcases hcases r with hr | ⟨rfl, hr⟩
    · rw [hr]; exact h.alive r
    · rw [hr]; exact halive
  case droppable => exact h.droppable
  case remaining =>
    intro r
    rcases hcases r with hr | ⟨rfl, hr⟩
    · rw [hr]; exact h.remaining r
    · rw [hr]; exact hremaining

/-- When the command that a worker holds completes, it joins those of its queue that have run. -/
theorem completed_append (h : w.Sound) {w' : World} {q : QueueRef} {c : CommandRef}
    (hholding : (w.queue q).worker.holding = [c]) (haccepted : w'.accepted = w.accepted)
    (hstatus : ∀ d, w'.status d = .complete ↔ d = c ∨ w.status d = .complete) :
    w'.completed q = w.completed q ++ [c] := by
  have hline := h.line q
  have hnodup := w.accepted_nodup q
  rw [hholding] at hline
  rw [hline] at hnodup
  have hdone : ∀ d ∈ w.completed q, decide (w'.status d = .complete) = true := by
    intro d hd
    have hold : w.status d = .complete := by simpa using (List.mem_filter.1 hd).2
    simp [hstatus, hold]
  have hinbox : ∀ d ∈ (w.queue q).inbox, ¬ decide (w'.status d = .complete) = true := by
    intro d hd
    have hpending := h.pending_of_mem (List.mem_append_right _ hd)
    have hne : d ≠ c := by
      rintro rfl
      exact (List.nodup_cons.1 (List.nodup_append.1 hnodup).2.1).1 hd
    simp [hstatus, hpending, hne]
  rw [World.completed, haccepted, hline, List.filter_append, List.filter_append,
    List.filter_eq_self.2 hdone, List.filter_eq_nil_iff.2 hinbox]
  simp [hstatus]

theorem completed_of_ne {w' : World} {q r : QueueRef} {c : CommandRef} (hc : c ∈ w.accepted q)
    (hr : r ≠ q) (haccepted : w'.accepted = w.accepted)
    (hstatus : ∀ d, w'.status d = .complete ↔ d = c ∨ w.status d = .complete) :
    w'.completed r = w.completed r := by
  rw [World.completed, World.completed, haccepted]
  refine List.filter_congr fun d hd => ?_
  have hne : d ≠ c := by
    rintro rfl
    exact hr ((mem_accepted.1 hd).2.symm.trans (mem_accepted.1 hc).2)
  simp [hstatus, hne]

/-- The worker of `q` completes the command that it holds. -/
theorem complete (h : w.Sound) {q : QueueRef} {c : CommandRef} {times : Option Timestamps}
    (hplace : (w.queue q).worker = .finishing c times) :
    ((w.setCommand c { w.command c with completion := .complete times }).setWorker q
      .idle).Sound := by
  have hholding : (w.queue q).worker.holding = [c] := by rw [hplace, Worker.holding]
  have hmem : c ∈ w.accepted q := h.mem_accepted_of_mem (by simp [hholding])
  obtain ⟨hc, hcq⟩ := mem_accepted.1 hmem
  have hq : q < w.queues.length := hcq ▸ h.owner c hc
  obtain ⟨w', hw'⟩ : ∃ w', w' = (w.setCommand c
    { w.command c with completion := .complete times }).setWorker q .idle := ⟨_, rfl⟩
  rw [← hw']
  -- the command is as before but for its completion, and the queue but for its worker
  have hself : w'.command c = { w.command c with completion := .complete times } := by
    rw [hw', setWorker, command_setQueue, w.command_setCommand_self hc]
  have hother : ∀ d, d ≠ c → w'.command d = w.command d := fun d hd => by
    rw [hw', setWorker, command_setQueue, w.command_setCommand_of_ne hd]
  have hlength : w'.commands.length = w.commands.length := by simp [hw']
  have hqueues : w'.queues.length = w.queues.length := by simp [hw']
  have hqueue : w'.queue q = { w.queue q with worker := .idle } := by
    rw [hw', setWorker, World.queue_setQueue_self _ (by simpa using hq), queue_setCommand]
  have hqueue' : ∀ r, r ≠ q → w'.queue r = w.queue r := fun r hr => by
    rw [hw', setWorker, World.queue_setQueue_of_ne _ hr, queue_setCommand]
  have hfixed : ∀ d, (w'.command d).queue = (w.command d).queue ∧
      (w'.command d).waitList = (w.command d).waitList := by
    intro d
    by_cases hd : d = c
    · rw [hd, hself]; exact ⟨rfl, rfl⟩
    · rw [hother d hd]; exact ⟨rfl, rfl⟩
  have hstatus : ∀ d, w'.status d = .complete ↔ d = c ∨ w.status d = .complete := by
    rw [hw']
    exact status_setCommand_complete hc times
  have haccepted : w'.accepted = w.accepted := by
    rw [hw']
    exact w.accepted_setCommand_complete c times
  constructor
  case owner =>
    intro d hd
    rw [(hfixed d).1, hqueues]
    exact h.owner d (hlength ▸ hd)
  case older =>
    intro d hd
    rw [(hfixed d).2]
    exact h.older d (hlength ▸ hd)
  case line =>
    intro r
    by_cases hr : r = q
    · subst r
      rw [haccepted, h.completed_append hholding haccepted hstatus, hqueue, h.line q, hholding]
      simp [Worker.holding]
    · rw [haccepted, completed_of_ne hmem hr haccepted hstatus, hqueue' r hr]
      exact h.line r
  case newest =>
    intro r
    rw [haccepted, ← h.newest r]
    by_cases hr : r = q
    · rw [hr, hqueue]
    · rw [hqueue' r hr]
  case waited =>
    intro r
    by_cases hr : r = q
    · rw [hr, hqueue]; trivial
    · rw [hqueue' r hr]
      exact waited_congr _ (fun d _ => (hfixed d).2) (fun d hd => (hstatus d).2 (.inr hd))
        (h.waited r)
  case released =>
    intro d hd e he
    rw [(hfixed d).2] at he
    refine (hstatus e).2 (.inr ?_)
    rcases (hstatus d).1 hd with rfl | hd
    · have hwaited := h.waited q
      rw [hplace] at hwaited
      exact hwaited e he
    · exact h.released d hd e he
  case numbered =>
    intro r hr
    rw [hqueues] at hr
    by_cases hrq : r = q
    · subst r
      rw [hqueue]
      exact h.numbered q hr
    · rw [hqueue' r hrq]
      exact h.numbered r hr
  case few =>
    rw [hqueues]
    exact h.few
  case alive =>
    intro r
    by_cases hr : r = q
    · rw [hr, hqueue]; exact h.alive q
    · rw [hqueue' r hr]; exact h.alive r
  case droppable =>
    intro d
    by_cases hd : d = c
    · rw [hd, hself]; exact h.droppable c
    · rw [hother d hd]; exact h.droppable d
  case remaining =>
    intro r
    by_cases hr : r = q
    · rw [hr, hqueue]; exact List.not_mem_nil
    · rw [hqueue' r hr]; exact h.remaining r

/-- What is left after an action of work is part of what was left before. -/
theorem remaining_act {action : Action} {rest : List Action}
    (h : .panic .explosive ∉ action :: rest) : .panic .explosive ∉ remainingAfter action rest := by
  cases action with
  | panic => exact List.not_mem_nil
  | push | see => exact fun hmem => h (List.mem_cons_of_mem _ hmem)

/-- Work that can be dropped leaves its worker alive. -/
theorem alive_act {queue : Queue} {action : Action} {rest : List Action}
    (halive : queue.alive = true) (h : .panic .explosive ∉ action :: rest) :
    (w.afterAction queue action).alive = true := by
  cases action with
  | push | see => exact halive
  | panic payload =>
    refine decide_eq_true ?_
    rintro rfl
    exact h List.mem_cons_self

/-- Every step of a worker keeps the line. -/
theorem of_works (h : w.Sound) {w' : World} {q : QueueRef} (hw : w.Works q w') : w'.Sound := by
  have hwaited := h.waited q
  have halive := h.alive q
  cases hw with
  | receive hplace hinbox =>
    refine h.setQueue ?_ rfl rfl trivial halive List.not_mem_nil
    simp [hplace, hinbox, Worker.holding]
  | enter hplace =>
    refine h.setQueue ?_ rfl rfl ⟨[], rfl, by simp⟩ halive List.not_mem_nil
    simp [hplace, Worker.holding]
  | @pass c d rest hplace hdone =>
    rw [hplace] at hwaited
    obtain ⟨passed, hsplit, hpassed⟩ := hwaited
    refine h.setQueue ?_ rfl rfl ⟨passed ++ [d], by simp [hsplit], ?_⟩ halive List.not_mem_nil
    · simp [hplace, Worker.holding]
    · intro e he
      rcases List.mem_append.1 he with he | he
      · exact hpassed e he
      · rw [List.mem_singleton.1 he]; exact hdone
  | @start c hplace =>
    rw [hplace] at hwaited
    obtain ⟨passed, hsplit, hpassed⟩ := hwaited
    rw [List.append_nil] at hsplit
    refine (h.stamp q _).setQueue ?_ rfl rfl ?_ (by simpa using halive) (h.droppable c)
    · simp [hplace, Worker.holding]
    · intro d hd
      rw [command_stamp, hsplit] at hd
      simpa [status] using hpassed d hd
  | @act c start action rest hplace =>
    have hremaining := h.remaining q
    rw [hplace] at hwaited hremaining
    refine h.setQueue ?_ ?_ ?_ hwaited (alive_act halive hremaining) (remaining_act hremaining)
    · cases action <;> simp [hplace, Worker.holding, afterAction]
    · cases action <;> rfl
    · cases action <;> rfl
  | @stop c start hplace =>
    rw [hplace] at hwaited
    refine (h.stamp q _).setQueue ?_ rfl rfl ?_ (by simpa using halive) List.not_mem_nil
    · simp [hplace, Worker.holding]
    · exact waited_congr (.running c start []) (fun d _ => by rw [command_stamp])
        (fun d hd => by simpa [status] using hd) hwaited
  | complete hplace => exact h.complete hplace

/-- A new queue has accepted nothing. -/
theorem addQueue (h : w.Sound) (config : QueueConfig)
    (hfew : w.queues.length + 1 < UInt64.size) : (w.addQueue config).2.Sound := by
  have hcommand : (w.addQueue config).2.command = w.command := funext fun c => by simp [command]
  have hstatus : (w.addQueue config).2.status = w.status := funext fun c => by
    rw [status, status, hcommand]
  have haccepted : (w.addQueue config).2.accepted = w.accepted :=
    accepted_congr (by simp) fun c => by rw [hcommand]
  have hcompleted := completed_congr haccepted hstatus
  have hnone : w.accepted w.queues.length = [] := by
    refine List.eq_nil_iff_forall_not_mem.2 fun c hc => ?_
    obtain ⟨hlt, hqueue⟩ := mem_accepted.1 hc
    exact absurd (h.owner c hlt) (by rw [hqueue]; exact Nat.lt_irrefl _)
  -- a queue that exists by now is old, or new and empty
  have hcases (q : QueueRef) : (w.addQueue config).2.queue q = w.queue q ∨
      q = w.queues.length ∧ ((w.addQueue config).2.queue q).worker = .idle ∧
        ((w.addQueue config).2.queue q).inbox = [] ∧
        ((w.addQueue config).2.queue q).last = none ∧
        ((w.addQueue config).2.queue q).id = ⟨UInt64.ofNat (q + 1)⟩ ∧
        ((w.addQueue config).2.queue q).alive = true := by
    rcases Nat.lt_trichotomy q w.queues.length with hq | rfl | hq
    · exact .inl (w.queue_addQueue_of_lt config hq)
    · exact .inr (by rw [queue_addQueue_self]; exact ⟨rfl, rfl, rfl, rfl, rfl, rfl⟩)
    · refine .inl ?_
      rw [World.queue_of_le _ (by rw [length_queues_addQueue]; exact hq),
        World.queue_of_le _ (Nat.le_of_lt hq)]
  constructor
  case owner =>
    intro c hc
    rw [hcommand, length_queues_addQueue]
    exact Nat.lt_succ_of_lt (h.owner c (by simpa using hc))
  case older => simpa [hcommand] using h.older
  case line =>
    intro q
    rw [haccepted, hcompleted]
    rcases hcases q with hq | ⟨rfl, hworker, hinbox, -⟩
    · rw [hq]; exact h.line q
    · rw [hworker, hinbox, hnone, World.completed, hnone]
      rfl
  case newest =>
    intro q
    rw [haccepted]
    rcases hcases q with hq | ⟨rfl, -, -, hlast, -⟩
    · rw [hq]; exact h.newest q
    · rw [hlast, hnone]
      rfl
  case waited =>
    intro q
    rcases hcases q with hq | ⟨-, hworker, -⟩
    · rw [hq]
      exact waited_congr _ (fun c _ => by rw [hcommand]) (fun d hd => by rw [hstatus]; exact hd)
        (h.waited q)
    · rw [hworker]; trivial
  case released => simpa [hcommand, hstatus] using h.released
  case numbered =>
    intro q hq
    rcases hcases q with hold | ⟨-, -, -, -, hid, -⟩
    · rcases Nat.lt_or_ge q w.queues.length with hlt | hge
      · rw [hold]; exact h.numbered q hlt
      · rw [length_queues_addQueue] at hq
        obtain rfl : q = w.queues.length := Nat.le_antisymm (Nat.le_of_lt_succ hq) hge
        rw [queue_addQueue_self]
    · exact hid
  case few =>
    rw [length_queues_addQueue]
    exact hfew
  case alive =>
    intro q
    rcases hcases q with hq | ⟨-, -, -, -, -, halive⟩
    · rw [hq]; exact h.alive q
    · exact halive
  case droppable => simpa [hcommand] using h.droppable
  case remaining =>
    intro q
    rcases hcases q with hq | ⟨-, hworker, -⟩
    · rw [hq]; exact h.remaining q
    · rw [hworker]; exact List.not_mem_nil

/-- A command that is handed over has not run. -/
theorem completed_submit {command : Command}
    (htakes : w.takes command.queue = true) (hpending : command.completion = .pending) :
    (w.submit command).state.completed = w.completed := by
  have hstatus := status_submit htakes hpending
  funext r
  by_cases hr : r = command.queue
  · subst r
    have hnew : w.status w.commands.length = .pending := by
      rw [status, w.command_of_le (Nat.le_refl _)]
      rfl
    rw [World.completed, hstatus, accepted_submit_self htakes, List.filter_append]
    simp [World.completed, hnew]
  · rw [World.completed, World.completed, hstatus, accepted_submit_of_ne htakes hr]

/-- A command that is handed over stands last in the line of its queue. -/
theorem submit (h : w.Sound) {command : Command} (hpending : command.completion = .pending)
    (hwait : ∀ d ∈ command.waitList, d < w.commands.length)
    (hwork : .panic .explosive ∉ command.work) : (w.submit command).state.Sound := by
  cases htakes : w.takes command.queue with
  | false =>
    rw [state_of_not_takes htakes]
    exact h
  | true =>
    have hq := lt_of_accepting (accepting_of_takes htakes)
    have hstatus := status_submit htakes hpending
    obtain ⟨w', hw'⟩ : ∃ w', w' = (w.submit command).state := ⟨_, rfl⟩
    have hself := command_submit_self htakes
    have hother := fun c => command_submit_of_ne (c := c) htakes
    have hqueue := queue_submit_self htakes
    have hqueue' := fun r => queue_submit_of_ne (q := r) htakes
    have haccepted := accepted_submit_self htakes
    have haccepted' := fun r => accepted_submit_of_ne (q := r) htakes
    have hlength : (w.submit command).state.commands.length = w.commands.length + 1 := by
      simp [htakes]
    have hqueues : (w.submit command).state.queues.length = w.queues.length :=
      length_queues_submit htakes
    have hcompleted := completed_submit htakes hpending
    rw [← hw'] at hstatus hself hother hqueue hqueue' haccepted haccepted' hlength hqueues ⊢
    rw [← hw'] at hcompleted
    -- a command that exists by now is old, or the new one
    have hcases : ∀ c, c < w'.commands.length → c < w.commands.length ∧ w'.command c = w.command c ∨
        c = w.commands.length ∧ w'.command c = command := by
      intro c hc
      rw [hlength] at hc
      by_cases hne : c = w.commands.length
      · exact .inr ⟨hne, hne ▸ hself⟩
      · exact .inl ⟨Nat.lt_of_le_of_ne (Nat.le_of_lt_succ hc) hne, hother c hne⟩
    constructor
    case owner =>
      intro c hc
      rw [hqueues]
      rcases hcases c hc with ⟨hlt, hcommand⟩ | ⟨-, hcommand⟩
      · rw [hcommand]; exact h.owner c hlt
      · rw [hcommand]; exact hq
    case older =>
      intro c hc
      rcases hcases c hc with ⟨hlt, hcommand⟩ | ⟨rfl, hcommand⟩
      · rw [hcommand]; exact h.older c hlt
      · rw [hcommand]; exact hwait
    case line =>
      intro r
      by_cases hr : r = command.queue
      · subst r
        rw [hcompleted, haccepted, hqueue, h.line]
        simp
      · rw [hcompleted, haccepted' r hr, hqueue' r hr]
        exact h.line r
    case newest =>
      intro r
      by_cases hr : r = command.queue
      · rw [hr, hqueue, haccepted, List.getLast?_concat]
      · rw [hqueue' r hr, haccepted' r hr]
        exact h.newest r
    case waited =>
      intro r
      have hwaited : w'.Waited (w.queue r).worker := by
        refine waited_congr _ (fun c hc => ?_) (fun d hd => by rw [hstatus]; exact hd) (h.waited r)
        have hold := (mem_accepted.1 (h.mem_accepted_of_mem (List.mem_append_left _ hc))).1
        rw [hother c (Nat.ne_of_lt hold)]
      by_cases hr : r = command.queue
      · rw [hr, hqueue, ← hr]
        exact hwaited
      · rw [hqueue' r hr]
        exact hwaited
    case released =>
      intro c hc d hd
      rw [hstatus] at hc ⊢
      rw [hother c (Nat.ne_of_lt (lt_of_status_eq_complete hc))] at hd
      exact h.released c hc d hd
    case numbered =>
      intro r hr
      rw [hqueues] at hr
      by_cases hrq : r = command.queue
      · rw [hrq, hqueue]
        exact h.numbered _ hq
      · rw [hqueue' r hrq]
        exact h.numbered r hr
    case few =>
      rw [hqueues]
      exact h.few
    case alive =>
      intro r
      by_cases hr : r = command.queue
      · rw [hr, hqueue]
        exact h.alive _
      · rw [hqueue' r hr]
        exact h.alive r
    case droppable =>
      intro c
      by_cases hc : c = w.commands.length
      · rw [hc, hself]
        exact hwork
      · rw [hother c hc]
        exact h.droppable c
    case remaining =>
      intro r
      by_cases hr : r = command.queue
      · rw [hr, hqueue]
        exact h.remaining _
      · rw [hqueue' r hr]
        exact h.remaining r

/-- Every step of a caller keeps the line. -/
theorem of_called (h : w.Sound) {w' : World} (hw : w.Called w') : w'.Sound := by
  cases hw with
  | addQueue config hfew => exact h.addQueue config hfew
  | cloneHandle q | dropHandle q | setPaused q _ | shutdown q =>
    exact h.setQueue rfl rfl rfl (h.waited q) (h.alive q) (h.remaining q)
  | submit command hpending hwait hwork => exact h.submit hpending hwait hwork

/-- A world without queues has nothing in line. -/
theorem empty (process : Nat → UInt64) : (World.empty process).Sound := by
  have haccepted : ∀ q, (World.empty process).accepted q = [] := fun q => rfl
  have hqueue : ∀ q, (World.empty process).queue q = default := fun q => rfl
  have hcommand : ∀ c, (World.empty process).command c = default := fun c => rfl
  refine ⟨nofun, nofun, ?_, ?_, ?_, ?_, nofun, show 0 < UInt64.size by decide, ?_, ?_, ?_⟩
  · intro q
    rw [World.completed, haccepted, hqueue]
    rfl
  · intro q
    rw [haccepted, hqueue]
    rfl
  · intro q
    rw [hqueue]
    trivial
  · intro c hc
    rw [status, hcommand] at hc
    cases hc
  · intro q
    rw [hqueue]
    rfl
  · intro c
    rw [hcommand]
    exact List.not_mem_nil
  · intro q
    rw [hqueue]
    exact List.not_mem_nil

/-- A queue takes commands until it is shut down. -/
theorem takes (h : w.Sound) {q : QueueRef} (haccepting : (w.queue q).accepting = true) :
    w.takes q = true :=
  (takes_eq (h.alive q)).trans haccepting

end Sound

end World

end SyncPoint.Host
