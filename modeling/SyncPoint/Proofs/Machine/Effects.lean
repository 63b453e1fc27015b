import Mathlib.Data.List.Basic
import SyncPoint.Proofs.Host.Dependence
import SyncPoint.Proofs.Machine.Sound

/-!
# What the workers have done

The history of a run tells which commands workers began to execute, and which actions they did for
which command.  `Executed` ties that to the world the run leads to: commands are begun once, what is
done for a command is its work up to the first panic, and what a queue's work did is what its
completed commands were to do, in order, followed by what was done so far for the command in flight.

Only three kinds of step have a part in this: a worker begins a command, does an action, or
completes a command.  All others leave the world alike (`Alike`).
-/

namespace SyncPoint.Host

/-- Work up to its first panic, which is the last thing that it does. -/
def untilPanic : List Action → List Action
  | [] => []
  | .panic payload :: _ => [.panic payload]
  | action :: rest => action :: untilPanic rest

theorem untilPanic_cons (action : Action) (rest : List Action) :
    untilPanic (action :: rest) = action :: untilPanic (World.remainingAfter action rest) := by
  cases action <;> rfl

namespace Action

/-- What an action appends to the trace of its queue, where the traces are these. -/
def writes (traces : QueueRef → List Int) : Action → List Int
  | .push entry => [entry]
  | .see q => [((traces q).length : Int)]
  | .panic _ => []

/-- The payload of a panic. -/
def payload? : Action → Option PanicPayload
  | .panic payload => some payload
  | _ => none

end Action

namespace Worker

/-- The command that the worker begins with its next step. -/
def starting? : Worker → Option CommandRef
  | .waiting c [] => some c
  | _ => none

/-- The action that the worker does with its next step, and the command that it is for. -/
def acting? : Worker → Option (CommandRef × Action)
  | .running c _ (action :: _) => some (c, action)
  | _ => none

/-- The command that the worker has begun and not completed. -/
def begun? : Worker → Option CommandRef
  | .running c _ _ | .finishing c _ => some c
  | _ => none

theorem mem_holding_of_begun? {worker : Worker} {c : CommandRef} (h : worker.begun? = some c) :
    c ∈ worker.holding := by
  cases worker with
  | running | finishing => cases h; simp [holding]
  | idle | atGate | waiting => cases h

theorem mem_holding_of_acting? {worker : Worker} {c : CommandRef} {action : Action}
    (h : worker.acting? = some (c, action)) : c ∈ worker.holding := by
  unfold acting? at h
  split at h <;> cases h
  simp [holding]

end Worker

/-! ## Reading a history -/

/-- The command that is begun in a step. -/
def Happening.start? : Happening → Option CommandRef
  | .worker _ place => place.starting?
  | _ => none

/-- The action that is done in a step, with the queue and the command that it is for. -/
def Happening.act? : Happening → Option (QueueRef × CommandRef × Action)
  | .worker q place => place.acting?.map (q, ·)
  | _ => none

/-- The commands that were begun, in order. -/
def begun (h : History) : List CommandRef := h.filterMap Happening.start?

/-- The actions that were done, in order. -/
def actions (h : History) : List (QueueRef × CommandRef × Action) := h.filterMap Happening.act?

/-- What was done for a command. -/
def actionsOf (h : History) (c : CommandRef) : List Action :=
  ((actions h).filter (·.2.1 = c)).map (·.2.2)

/-- What a queue's work did. -/
def actionsOn (h : History) (q : QueueRef) : List Action :=
  ((actions h).filter (·.1 = q)).map (·.2.2)

/-- The traces after one more action. -/
def written (traces : QueueRef → List Int) (act : QueueRef × CommandRef × Action) :
    QueueRef → List Int :=
  fun q => if q = act.1 then traces q ++ act.2.2.writes traces else traces q

/-- The traces that actions write when they are done in this order. -/
def tracesOf (h : History) : QueueRef → List Int :=
  (actions h).foldl written fun _ => []

section Histories

variable {h : History} {l : Happening}

theorem begun_of_none (hl : l.start? = none) : begun (h ++ [l]) = begun h := by
  simp [begun, hl]

theorem begun_of_some {c : CommandRef} (hl : l.start? = some c) :
    begun (h ++ [l]) = begun h ++ [c] := by
  simp [begun, hl]

theorem actions_of_none (hl : l.act? = none) : actions (h ++ [l]) = actions h := by
  simp [actions, hl]

theorem actions_of_some {act : QueueRef × CommandRef × Action} (hl : l.act? = some act) :
    actions (h ++ [l]) = actions h ++ [act] := by
  simp [actions, hl]

theorem actionsOf_of_none (hl : l.act? = none) : actionsOf (h ++ [l]) = actionsOf h := by
  funext c
  rw [actionsOf, actionsOf, actions_of_none hl]

theorem actionsOn_of_none (hl : l.act? = none) : actionsOn (h ++ [l]) = actionsOn h := by
  funext q
  rw [actionsOn, actionsOn, actions_of_none hl]

variable {q : QueueRef} {c : CommandRef} {action : Action} (hl : l.act? = some (q, c, action))
include hl

theorem actionsOf_of_some_self : actionsOf (h ++ [l]) c = actionsOf h c ++ [action] := by
  simp [actionsOf, actions_of_some hl]

theorem actionsOf_of_some_of_ne {d : CommandRef} (hd : d ≠ c) :
    actionsOf (h ++ [l]) d = actionsOf h d := by
  simp [actionsOf, actions_of_some hl, hd.symm]

theorem actionsOn_of_some_self : actionsOn (h ++ [l]) q = actionsOn h q ++ [action] := by
  simp [actionsOn, actions_of_some hl]

theorem actionsOn_of_some_of_ne {r : QueueRef} (hr : r ≠ q) :
    actionsOn (h ++ [l]) r = actionsOn h r := by
  simp [actionsOn, actions_of_some hl, hr.symm]

end Histories

/-! ## What the actions wrote -/

/-- Traces and panics are those of the actions that were done. -/
structure Written (h : History) (w : World) : Prop where
  traces : ∀ q, (w.queue q).trace = tracesOf h q
  panics : ∀ q, (w.queue q).panics = (actionsOn h q).filterMap Action.payload?

namespace Written

variable {h : History} {l : Happening} {w w' : World} {q : QueueRef}

/-- A step in which no action is done leaves traces and panics as they are. -/
theorem of_none (hw : Written h w) (hl : l.act? = none)
    (htrace : ∀ r, (w'.queue r).trace = (w.queue r).trace)
    (hpanics : ∀ r, (w'.queue r).panics = (w.queue r).panics) : Written (h ++ [l]) w' := by
  refine ⟨fun r => ?_, fun r => ?_⟩
  · rw [htrace, tracesOf, actions_of_none hl]
    exact hw.traces r
  · rw [hpanics, actionsOn_of_none hl]
    exact hw.panics r

/-- So does one in which only a worker moves. -/
theorem of_moved (hw : Written h w) (hl : l.act? = none) {worker : Worker}
    (hself : w'.queue q = { w.queue q with worker := worker })
    (hother : ∀ r, r ≠ q → w'.queue r = w.queue r) : Written (h ++ [l]) w' := by
  refine hw.of_none hl (fun r => ?_) fun r => ?_ <;> by_cases hr : r = q
  · rw [hr, hself]
  · rw [hother r hr]
  · rw [hr, hself]
  · rw [hother r hr]

/-- An action writes to the trace or to the panics of its queue. -/
theorem of_act (hw : Written h w) {c : CommandRef} {action : Action}
    (hl : l.act? = some (q, c, action))
    (htrace : (w'.queue q).trace = (w.afterAction (w.queue q) action).trace)
    (hpanics : (w'.queue q).panics = (w.afterAction (w.queue q) action).panics)
    (hother : ∀ r, r ≠ q → w'.queue r = w.queue r) : Written (h ++ [l]) w' := by
  have htraces : tracesOf (h ++ [l]) = written (tracesOf h) (q, c, action) := by
    simp [tracesOf, actions_of_some hl]
  have hbefore : (w.queue · |>.trace) = tracesOf h := funext hw.traces
  refine ⟨fun r => ?_, fun r => ?_⟩ <;> by_cases hr : r = q
  · subst r
    rw [htraces, written, if_pos rfl, htrace, ← hw.traces q, ← hbefore]
    cases action <;> simp [World.afterAction, Action.writes]
  · rw [htraces, written, if_neg hr, hother r hr]
    exact hw.traces r
  · subst r
    rw [hpanics, actionsOn_of_some_self hl, List.filterMap_append, ← hw.panics q]
    cases action <;> simp [World.afterAction, Action.payload?]
  · rw [hother r hr, actionsOn_of_some_of_ne hl hr]
    exact hw.panics r

end Written

/-! ## The invariant -/

/-- What a history has to do with the world that it leads to. -/
structure Executed (h : History) (w : World) : Prop where
  once : (begun h).Nodup
  begun_iff : ∀ c, c ∈ begun h ↔
    w.status c = .complete ∨ ∃ q, (w.queue q).worker.begun? = some c
  untouched : ∀ c, c ∉ begun h → actionsOf h c = []
  finished : ∀ c, w.status c = .complete → actionsOf h c = untilPanic (w.command c).work
  inFlight : ∀ q c, (w.queue q).worker.begun? = some c →
    actionsOf h c ++ untilPanic (w.queue q).worker.remaining = untilPanic (w.command c).work
  effects : ∀ q, actionsOn h q = (w.completed q).flatMap (fun c => untilPanic (w.command c).work) ++
    (w.queue q).worker.begun?.elim [] (actionsOf h)
  written : Written h w

/-- Two worlds that differ in nothing that has to do with executing commands. -/
structure Alike (w w' : World) : Prop where
  status : w'.status = w.status
  work : ∀ c, c < w.commands.length → (w'.command c).work = (w.command c).work
  completed : w'.completed = w.completed
  begun : ∀ q, (w'.queue q).worker.begun? = (w.queue q).worker.begun?
  remaining : ∀ q, (w'.queue q).worker.remaining = (w.queue q).worker.remaining
  trace : ∀ q, (w'.queue q).trace = (w.queue q).trace
  panics : ∀ q, (w'.queue q).panics = (w.queue q).panics

namespace Alike

variable {w w' w'' : World}

theorem refl (w : World) : Alike w w :=
  ⟨rfl, fun _ _ => rfl, rfl, fun _ => rfl, fun _ => rfl, fun _ => rfl, fun _ => rfl⟩

/-- A queue may change in whatever has nothing to do with executing commands. -/
theorem setQueue (w : World) (q : QueueRef) {queue : Queue}
    (hbegun : queue.worker.begun? = (w.queue q).worker.begun?)
    (hremaining : queue.worker.remaining = (w.queue q).worker.remaining)
    (htrace : queue.trace = (w.queue q).trace) (hpanics : queue.panics = (w.queue q).panics) :
    Alike w (w.setQueue q queue) := by
  have hcases := w.queue_setQueue_cases q queue
  refine ⟨rfl, fun _ _ => rfl, rfl, ?_, ?_, ?_, ?_⟩ <;> intro r <;>
    rcases hcases r with hr | ⟨rfl, hr⟩ <;> rw [hr] <;> assumption

theorem stamp (w : World) (q : QueueRef) (timed : Bool) : Alike w (w.stamp q timed).2 := by
  have hstatus : (w.stamp q timed).2.status = w.status := by
    funext c
    rw [World.status, World.status, World.command_stamp]
  have haccepted : (w.stamp q timed).2.accepted = w.accepted :=
    World.accepted_congr (by simp) fun c => by rw [World.command_stamp]
  refine ⟨hstatus, fun c _ => by rw [World.command_stamp], World.completed_congr haccepted hstatus,
    ?_, ?_, ?_, ?_⟩ <;> intro r <;> rw [World.queue_stamp]

theorem trans (h : Alike w w') (h' : Alike w' w'')
    (hcommands : w.commands.length ≤ w'.commands.length) : Alike w w'' :=
  ⟨h'.status.trans h.status,
    fun c hc => (h'.work c (Nat.lt_of_lt_of_le hc hcommands)).trans (h.work c hc),
    h'.completed.trans h.completed, fun q => (h'.begun q).trans (h.begun q),
    fun q => (h'.remaining q).trans (h.remaining q), fun q => (h'.trace q).trans (h.trace q),
    fun q => (h'.panics q).trans (h.panics q)⟩

theorem addQueue (w : World) (config : QueueConfig) : Alike w (w.addQueue config).2 := by
  have hcommand : (w.addQueue config).2.command = w.command := funext fun c => by
    simp [World.command]
  have hstatus : (w.addQueue config).2.status = w.status := funext fun c => by
    rw [World.status, World.status, hcommand]
  have haccepted : (w.addQueue config).2.accepted = w.accepted :=
    World.accepted_congr (by simp) fun c => by rw [hcommand]
  -- a new queue has done as little as one that does not exist
  have hqueue (q : QueueRef) : (w.addQueue config).2.queue q = w.queue q ∨
      q = w.queues.length ∧ w.queue q = default := by
    rcases Nat.lt_trichotomy q w.queues.length with hq | hq | hq
    · exact .inl (w.queue_addQueue_of_lt config hq)
    · exact .inr ⟨hq, w.queue_of_le (Nat.le_of_eq hq.symm)⟩
    · refine .inl ?_
      rw [World.queue_of_le _ (by rw [World.length_queues_addQueue]; exact hq),
        World.queue_of_le _ (Nat.le_of_lt hq)]
  refine ⟨hstatus, fun c _ => by rw [hcommand], World.completed_congr haccepted hstatus,
    ?_, ?_, ?_, ?_⟩ <;> intro q <;> rcases hqueue q with hold | ⟨rfl, hnone⟩
  all_goals first
    | rw [hold]
    | rw [World.queue_addQueue_self, hnone]; rfl

theorem submit (w : World) {command : Command} (hpending : command.completion = .pending) :
    Alike w (w.submit command).state := by
  cases htakes : w.takes command.queue with
  | false =>
    rw [World.state_of_not_takes htakes]
    exact refl w
  | true =>
    have hqueue (q : QueueRef) : (w.submit command).state.queue q = w.queue q ∨
        q = command.queue ∧ (w.submit command).state.queue q =
          { w.queue q with
            inbox := (w.queue q).inbox ++ [w.commands.length]
            last := some w.commands.length } := by
      by_cases hq : q = command.queue
      · exact .inr ⟨hq, by rw [hq]; exact World.queue_submit_self htakes⟩
      · exact .inl (World.queue_submit_of_ne htakes hq)
    refine ⟨World.status_submit htakes hpending, fun c hc => ?_,
      World.Sound.completed_submit htakes hpending, ?_, ?_, ?_, ?_⟩
    · rw [World.command_submit_of_ne htakes (Nat.ne_of_lt hc)]
    all_goals intro q; rcases hqueue q with hq | ⟨-, hq⟩ <;> rw [hq]

theorem of_called (h : w.Called w') : Alike w w' := by
  cases h with
  | addQueue config => exact addQueue w config
  | cloneHandle q | dropHandle q | setPaused q _ | shutdown q => exact setQueue w q rfl rfl rfl rfl
  | submit command hpending => exact submit w hpending

end Alike

namespace Executed

variable {h : History} {l : Happening} {w w' : World} {q : QueueRef}

/-- A command is begun by the worker of its own queue. -/
theorem eq_of_begun? (hsound : w.Sound) {r : QueueRef} {c : CommandRef}
    (hq : (w.queue q).worker.begun? = some c) (hr : c ∈ (w.queue r).worker.holding) : r = q :=
  (hsound.queue_of_mem_holding hr).2.symm.trans
    (hsound.queue_of_mem_holding (Worker.mem_holding_of_begun? hq)).2

theorem of_alike (he : Executed h w) (hsound : w.Sound) (halike : Alike w w')
    (hstart : l.start? = none) (hact : l.act? = none) : Executed (h ++ [l]) w' := by
  have hbegun : begun (h ++ [l]) = begun h := begun_of_none hstart
  have hof : actionsOf (h ++ [l]) = actionsOf h := actionsOf_of_none hact
  have hheld : ∀ q c, (w.queue q).worker.begun? = some c → c < w.commands.length := fun q c hc =>
    (hsound.queue_of_mem_holding (Worker.mem_holding_of_begun? hc)).1
  constructor
  case written => exact he.written.of_none hact halike.trace halike.panics
  case once => rw [hbegun]; exact he.once
  case begun_iff =>
    intro c
    rw [hbegun, halike.status]
    simpa only [halike.begun] using he.begun_iff c
  case untouched => rw [hbegun, hof]; exact he.untouched
  case finished =>
    intro c hc
    rw [halike.status] at hc
    rw [hof, halike.work c (World.lt_of_status_eq_complete hc)]
    exact he.finished c hc
  case inFlight =>
    intro q c hc
    rw [halike.begun] at hc
    rw [hof, halike.remaining, halike.work c (hheld q c hc)]
    exact he.inFlight q c hc
  case effects =>
    intro q
    rw [actionsOn_of_none hact, hof, halike.completed, halike.begun, he.effects]
    congr 1
    refine List.flatMap_congr fun c hc => ?_
    rw [halike.work c (World.mem_accepted.1 (List.mem_filter.1 hc).1).1]

/-- The worker begins a command. It is a new one: it has not run, and no other worker has it. -/
theorem of_start (he : Executed h w) (hsound : w.Sound) {c : CommandRef} (hq : q < w.queues.length)
    (hplace : (w.queue q).worker = .waiting c []) :
    Executed (h ++ [.worker q (.waiting c [])])
      ((w.stamp q (w.command c).timed).2.setWorker q
        (.running c (w.stamp q (w.command c).timed).1 (w.command c).work)) := by
  have hholding : c ∈ (w.queue q).worker.holding := by simp [hplace, Worker.holding]
  have hpending := hsound.pending_of_mem (List.mem_append_left _ hholding)
  have hnew : c ∉ begun h := by
    intro hc
    rcases (he.begun_iff c).1 hc with hcomplete | ⟨r, hr⟩
    · rw [hpending] at hcomplete
      cases hcomplete
    · obtain rfl := eq_of_begun? hsound hr hholding
      rw [hplace] at hr
      cases hr
  obtain ⟨w', hw'⟩ : ∃ w', w' = (w.stamp q (w.command c).timed).2.setWorker q
    (.running c (w.stamp q (w.command c).timed).1 (w.command c).work) := ⟨_, rfl⟩
  rw [← hw']
  have halike := Alike.stamp w q (w.command c).timed
  have hstatus : w'.status = w.status := by rw [hw']; exact halike.status
  have hcompleted : w'.completed = w.completed := by rw [hw']; exact halike.completed
  have hcommand : w'.command = w.command := by
    rw [hw', World.setWorker, World.command_setQueue, World.command_stamp]
  have hself : w'.queue q = { w.queue q with
      worker := .running c (w.stamp q (w.command c).timed).1 (w.command c).work } := by
    rw [hw', World.setWorker, World.queue_setQueue_self _ (by simpa using hq), World.queue_stamp]
  have hother : ∀ r, r ≠ q → w'.queue r = w.queue r := fun r hr => by
    rw [hw', World.setWorker, World.queue_setQueue_of_ne _ hr, World.queue_stamp]
  have hact : (Happening.worker q (.waiting c [])).act? = none := rfl
  have hbegun : begun (h ++ [.worker q (.waiting c [])]) = begun h ++ [c] := begun_of_some rfl
  have hof : actionsOf (h ++ [.worker q (.waiting c [])]) = actionsOf h := actionsOf_of_none hact
  have hnone := he.untouched c hnew
  constructor
  case written => exact he.written.of_moved hact hself hother
  case once =>
    rw [hbegun]
    exact List.nodup_append.2 ⟨he.once, by simp, fun d hd e hc => by
      rw [List.mem_singleton.1 hc]
      rintro rfl
      exact hnew hd⟩
  case begun_iff =>
    intro d
    rw [hbegun, hstatus, List.mem_append, List.mem_singleton, he.begun_iff]
    constructor
    · rintro ((hd | ⟨r, hr⟩) | rfl)
      · exact .inl hd
      · have hrq : r ≠ q := by
          rintro rfl
          rw [hplace] at hr
          cases hr
        exact .inr ⟨r, by rw [hother r hrq]; exact hr⟩
      · exact .inr ⟨q, by rw [hself]; rfl⟩
    · rintro (hd | ⟨r, hr⟩)
      · exact .inl (.inl hd)
      · by_cases hrq : r = q
        · rw [hrq, hself] at hr
          cases hr
          exact .inr rfl
        · rw [hother r hrq] at hr
          exact .inl (.inr ⟨r, hr⟩)
  case untouched =>
    intro d hd
    rw [hof]
    exact he.untouched d fun hold => hd (by rw [hbegun]; exact List.mem_append_left _ hold)
  case finished =>
    intro d hd
    rw [hstatus] at hd
    rw [hof, hcommand]
    exact he.finished d hd
  case inFlight =>
    intro r d hd
    rw [hof, hcommand]
    by_cases hrq : r = q
    · rw [hrq, hself] at hd ⊢
      cases hd
      rw [hnone]
      rfl
    · rw [hother r hrq] at hd ⊢
      exact he.inFlight r d hd
  case effects =>
    intro r
    rw [actionsOn_of_none hact, hof, hcompleted, hcommand, he.effects]
    by_cases hrq : r = q
    · rw [hrq, hself, hplace]
      simp [Worker.begun?, hnone]
    · rw [hother r hrq]

/-- The worker does an action of the command that it has begun. -/
theorem of_act (he : Executed h w) (hsound : w.Sound) {c : CommandRef} {start : Option UInt64}
    {action : Action} {rest : List Action} (hq : q < w.queues.length)
    (hplace : (w.queue q).worker = .running c start (action :: rest)) :
    Executed (h ++ [.worker q (.running c start (action :: rest))])
      (w.setQueue q { w.afterAction (w.queue q) action with
        worker := .running c start (World.remainingAfter action rest) }) := by
  have hheld : (w.queue q).worker.begun? = some c := by rw [hplace]; rfl
  have hholding := Worker.mem_holding_of_begun? hheld
  have hpending := hsound.pending_of_mem (List.mem_append_left _ hholding)
  have hmine : c ∈ begun h := (he.begun_iff c).2 (.inr ⟨q, hheld⟩)
  obtain ⟨w', hw'⟩ : ∃ w', w' = w.setQueue q { w.afterAction (w.queue q) action with
    worker := .running c start (World.remainingAfter action rest) } := ⟨_, rfl⟩
  rw [← hw']
  have hstatus : w'.status = w.status := by rw [hw']; rfl
  have hcompleted : w'.completed = w.completed := by rw [hw']; rfl
  have hcommand : w'.command = w.command := by rw [hw']; rfl
  have hself : w'.queue q = { w.afterAction (w.queue q) action with
      worker := .running c start (World.remainingAfter action rest) } := by
    rw [hw', World.queue_setQueue_self _ hq]
  have hother : ∀ r, r ≠ q → w'.queue r = w.queue r := fun r hr => by
    rw [hw', World.queue_setQueue_of_ne _ hr]
  have hbegun? : ∀ r, (w'.queue r).worker.begun? = (w.queue r).worker.begun? := by
    intro r
    by_cases hrq : r = q
    · rw [hrq, hself, hplace]; rfl
    · rw [hother r hrq]
  obtain ⟨l, hl⟩ : ∃ l, l = Happening.worker q (.running c start (action :: rest)) := ⟨_, rfl⟩
  rw [← hl]
  have hbegun : begun (h ++ [l]) = begun h := begun_of_none (by rw [hl]; rfl)
  have hact : l.act? = some (q, c, action) := by rw [hl]; rfl
  have hof' : ∀ d, d ≠ c → actionsOf (h ++ [l]) d = actionsOf h d := fun d hd =>
    actionsOf_of_some_of_ne hact hd
  constructor
  case written => exact he.written.of_act hact (by rw [hself]) (by rw [hself]) hother
  case once => rw [hbegun]; exact he.once
  case begun_iff =>
    intro d
    rw [hbegun, hstatus]
    simpa only [hbegun?] using he.begun_iff d
  case untouched =>
    intro d hd
    rw [hbegun] at hd
    rw [hof' d (by rintro rfl; exact hd hmine)]
    exact he.untouched d hd
  case finished =>
    intro d hd
    rw [hstatus] at hd
    have hdc : d ≠ c := by
      rintro rfl
      rw [hpending] at hd
      cases hd
    rw [hof' d hdc, hcommand]
    exact he.finished d hd
  case inFlight =>
    intro r d hd
    rw [hbegun?] at hd
    rw [hcommand]
    by_cases hrq : r = q
    · subst r
      have hbefore := he.inFlight q c hheld
      rw [hheld] at hd
      cases hd
      rw [hplace, Worker.remaining, untilPanic_cons] at hbefore
      rw [actionsOf_of_some_self hact, hself, List.append_assoc]
      exact hbefore
    · have hdc : d ≠ c := by
        rintro rfl
        exact hrq (eq_of_begun? hsound hheld (Worker.mem_holding_of_begun? hd))
      rw [hof' d hdc, hother r hrq]
      exact he.inFlight r d hd
  case effects =>
    intro r
    rw [hcompleted, hcommand, hbegun?]
    by_cases hrq : r = q
    · rw [hrq, actionsOn_of_some_self hact, he.effects, hheld]
      simp [actionsOf_of_some_self hact]
    · rw [actionsOn_of_some_of_ne hact hrq, he.effects]
      cases hr : (w.queue r).worker.begun? with
      | none => rfl
      | some d =>
        have hdc : d ≠ c := by
          rintro rfl
          exact hrq (eq_of_begun? hsound hheld (Worker.mem_holding_of_begun? hr))
        simp [hof' d hdc]

/-- The worker completes the command that it has begun, with nothing of it left to do. -/
theorem of_complete (he : Executed h w) (hsound : w.Sound) {c : CommandRef}
    {times : Option Timestamps} (hq : q < w.queues.length)
    (hplace : (w.queue q).worker = .finishing c times) :
    Executed (h ++ [.worker q (.finishing c times)])
      ((w.setCommand c { w.command c with completion := .complete times }).setWorker q .idle) := by
  have hheld : (w.queue q).worker.begun? = some c := by rw [hplace]; rfl
  have hholding : (w.queue q).worker.holding = [c] := by rw [hplace]; rfl
  have hmem : c ∈ w.accepted q := hsound.mem_accepted_of_mem (by simp [hholding])
  have hc := (World.mem_accepted.1 hmem).1
  obtain ⟨w', hw'⟩ : ∃ w', w' = (w.setCommand c
    { w.command c with completion := .complete times }).setWorker q .idle := ⟨_, rfl⟩
  rw [← hw']
  have hstatus : ∀ d, w'.status d = .complete ↔ d = c ∨ w.status d = .complete := by
    rw [hw']
    exact World.status_setCommand_complete hc times
  have haccepted : w'.accepted = w.accepted := by
    rw [hw']
    exact w.accepted_setCommand_complete c times
  have hwork : ∀ d, (w'.command d).work = (w.command d).work := by
    intro d
    rw [hw', World.setWorker, World.command_setQueue]
    by_cases hd : d = c
    · rw [hd, w.command_setCommand_self hc]
    · rw [w.command_setCommand_of_ne hd]
  have hself : w'.queue q = { w.queue q with worker := .idle } := by
    rw [hw', World.setWorker, World.queue_setQueue_self _ (by simpa using hq),
      World.queue_setCommand]
  have hother : ∀ r, r ≠ q → w'.queue r = w.queue r := fun r hr => by
    rw [hw', World.setWorker, World.queue_setQueue_of_ne _ hr, World.queue_setCommand]
  obtain ⟨l, hl⟩ : ∃ l, l = Happening.worker q (.finishing c times) := ⟨_, rfl⟩
  rw [← hl]
  have hbegun : begun (h ++ [l]) = begun h := begun_of_none (by rw [hl]; rfl)
  have hact : l.act? = none := by rw [hl]; rfl
  have hof : actionsOf (h ++ [l]) = actionsOf h := actionsOf_of_none hact
  have hdone : actionsOf h c = untilPanic (w.command c).work := by
    have hbefore := he.inFlight q c hheld
    rw [hplace] at hbefore
    simpa [Worker.remaining, untilPanic] using hbefore
  constructor
  case written => exact he.written.of_moved hact hself hother
  case once => rw [hbegun]; exact he.once
  case begun_iff =>
    intro d
    rw [hbegun, he.begun_iff, hstatus]
    constructor
    · rintro (hd | ⟨r, hr⟩)
      · exact .inl (.inr hd)
      · by_cases hrq : r = q
        · rw [hrq, hheld] at hr
          cases hr
          exact .inl (.inl rfl)
        · exact .inr ⟨r, by rw [hother r hrq]; exact hr⟩
    · rintro ((rfl | hd) | ⟨r, hr⟩)
      · exact .inr ⟨q, hheld⟩
      · exact .inl hd
      · by_cases hrq : r = q
        · rw [hrq, hself] at hr
          cases hr
        · rw [hother r hrq] at hr
          exact .inr ⟨r, hr⟩
  case untouched => rw [hbegun, hof]; exact he.untouched
  case finished =>
    intro d hd
    rw [hof, hwork]
    rcases (hstatus d).1 hd with rfl | hd
    · exact hdone
    · exact he.finished d hd
  case inFlight =>
    intro r d hd
    rw [hof, hwork]
    by_cases hrq : r = q
    · rw [hrq, hself] at hd
      cases hd
    · rw [hother r hrq] at hd ⊢
      exact he.inFlight r d hd
  case effects =>
    intro r
    rw [actionsOn_of_none hact, hof, he.effects]
    simp only [hwork]
    by_cases hrq : r = q
    · rw [hrq, hsound.completed_append hholding haccepted hstatus, hself, hheld]
      simp [Worker.begun?, hdone]
    · rw [World.Sound.completed_of_ne hmem hrq haccepted hstatus, hother r hrq]

theorem of_works (he : Executed h w) (hsound : w.Sound) (hworks : w.Works q w') :
    Executed (h ++ [.worker q (w.queue q).worker]) w' := by
  have hq := hworks.lt
  cases hworks with
  | receive hplace | enter hplace =>
    refine he.of_alike hsound (.setQueue w q ?_ ?_ rfl rfl) ?_ ?_ <;> rw [hplace] <;> rfl
  | @pass c d rest hplace =>
    refine he.of_alike hsound (.setQueue w q ?_ ?_ rfl rfl) ?_ ?_ <;> rw [hplace] <;> rfl
  | start hplace =>
    rw [hplace]
    exact he.of_start hsound hq hplace
  | act hplace =>
    rw [hplace]
    exact he.of_act hsound hq hplace
  | @stop c start hplace =>
    refine he.of_alike hsound ((Alike.stamp w q _).trans (.setQueue _ q ?_ ?_ rfl rfl) (by simp))
      ?_ ?_ <;> simp [hplace, Worker.begun?, Worker.remaining, Happening.start?, Happening.act?,
        Worker.starting?, Worker.acting?]
  | complete hplace =>
    rw [hplace]
    exact he.of_complete hsound hq hplace

theorem start (process : Nat → UInt64) : Executed [] (World.empty process) := by
  refine ⟨List.nodup_nil, fun c => ?_, fun _ _ => rfl, ?_, nofun, fun _ => rfl,
    fun _ => rfl, fun _ => rfl⟩
  · constructor
    · exact fun hc => absurd hc List.not_mem_nil
    · rintro (hc | ⟨q, hq⟩)
      · exact absurd (World.lt_of_status_eq_complete hc) (Nat.not_lt_zero c)
      · cases hq
  · exact fun c hc => absurd (World.lt_of_status_eq_complete hc) (Nat.not_lt_zero c)

end Executed

namespace Machine

/-- A run and the world that it leads to. -/
theorem executed_of_run {process : Nat → UInt64} {h : History} {s : Machine}
    (hrun : Run (start process) h s) : Executed h s.world := by
  induction hrun with
  | refl => exact Executed.start process
  | @snoc h l s' s'' hrun hstep ih =>
    have hsound := (Sound.start process).of_run hrun
    rcases hsound.world_of_step hstep with ⟨q, rfl, hworks⟩ | ⟨⟨t, ht⟩, hsame⟩
    · exact ih.of_works hsound.world hworks
    · have halike : Alike s'.world s''.world := by
        rcases hsame with hsame | hcalled
        · rw [hsame]; exact .refl _
        · exact .of_called hcalled
      cases l with
      | worker => cases ht
      | enter | ask => exact ih.of_alike hsound.world halike rfl rfl

end Machine

end SyncPoint.Host
