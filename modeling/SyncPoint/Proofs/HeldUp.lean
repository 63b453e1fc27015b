import SyncPoint.Proofs.Machine.Awaiting
import SyncPoint.Proofs.Machine.Schedule

/-!
# What holds up calls that do not wait

Calls that wait for no command themselves may still wait for the lock of an event, and so for
whoever holds it.  A thread that waits for an event, a barrier or a command holds no lock meanwhile,
but one that measures two events at one position keeps both locked while it waits for a marker
behind them.  Nothing else ever holds up another call (`Machine.held_up_by_measurements`), but with
that queue paused even a query goes without an answer (`Machine.query_held_up`).
-/

namespace SyncPoint.Host.Machine

open Relation

/-- The thread holds the lock of an event while it waits for a command that has not run. -/
def HoldsUp (s : Machine) (u : ThreadId) (m : CommandRef) : Prop :=
  s.Holds u ∧ s.asks? u = some (.engine (.await m)) ∧ s.world.status m = .pending

/-- Measurements against markers are all that holds up calls that do not wait. -/
structure HeldUpByMeasurements (s : Machine) : Prop where
  /-- A call that is not for waiting and measures nothing does not wait for a command. -/
  prompt : ∀ t call, s.Busy t call → call.mayWait = false →
    ∀ c, s.asks? t ≠ some (.engine (.await c))
  /-- Who keeps an event locked while it waits for a command measures two events at one position,
  both of which it holds, and waits for a marker behind that position. -/
  measures : ∀ u m, s.Holds u → s.asks? u = some (.engine (.await m)) →
    ∃ call start stop, s.Busy u call ∧ call.Compares start stop ∧
      MeasuresAgainst u start stop s.system m
  /-- Such a call goes on, or waits, through however many others, for a thread that goes on or for
  one that keeps an event locked while it waits for a marker. -/
  led : ∀ t call, s.Busy t call → call.mayWait = false → ∃ u, ReflTransGen s.WaitsFor t u ∧
    ((∃ request s', Step s (.ask u request) s') ∨ ∃ m, s.HoldsUp u m)

variable {s : Machine} {t u : ThreadId} {call : Call} {m : CommandRef} {o : Nat}

theorem task_of_busy (hbusy : s.Busy t call) :
    ∃ request next queues, s.tasks t = some ⟨call, .ask request next, queues⟩ := by
  obtain ⟨⟨_, rest, queues⟩, htask, rfl, request, next, hrest⟩ := hbusy
  refine ⟨request, next, queues, ?_⟩
  rw [htask]
  congr 1
  exact congrArg (Task.mk _ · queues) hrest

/-- Unless it measures, a thread that waits for a command holds no lock. -/
theorem not_holds_of_await (hs : s.Reachable) {request : Request}
    {next : request.Answer → Program call.Result} {queues : List QueueRef}
    (htask : s.tasks t = some ⟨call, .ask request next, queues⟩) (hcall : call.measures = false)
    (hawaits : request.awaited? = some m) : ¬ s.Holds t := by
  have hlast : call.measures = false → (Program.ask request next).WaitsLast :=
    rest_of_reachable (fun call rest => call.measures = false → rest.WaitsLast)
      (fun _ system hcall => Call.waitsLast_enter hcall system)
      (fun _ _ _ answer hrest hcall => (hrest hcall answer).1) hs htask
  obtain ⟨held, hheld, hconduct⟩ := (sound_of_reachable hs).conduct t
  have hnil : held = [] := (hlast hcall).eq_nil (hconduct.of_task htask) hawaits
  rintro ⟨o, hholder⟩
  have hmem : o ∈ held := (hheld o).2 hholder
  rw [hnil] at hmem
  cases hmem

theorem measures_of_holds (hs : s.Reachable) (hholds : s.Holds u)
    (hasks : s.asks? u = some (.engine (.await m))) :
    ∃ call start stop, s.Busy u call ∧ call.Compares start stop ∧
      MeasuresAgainst u start stop s.system m := by
  obtain ⟨call, next, queues, htask⟩ := task_of_asks? hasks
  cases hcall : call.measures with
  | false => exact absurd hholds (not_holds_of_await hs htask hcall rfl)
  | true =>
    have hsound := sound_of_reachable hs
    have hawaits := awaits_of_reachable (fun _ _ _ => Call.awaits_enter) hs htask
    obtain ⟨start, stop, hcompares, hagainst⟩ :=
      (hawaits s.system (.refl hsound.world hsound.filed)).1 m rfl hcall
    exact ⟨call, start, stop, ⟨_, htask, rfl, _, _, rfl⟩, hcompares, hagainst⟩

/-- Waiting for a lock leads to a thread that goes on, or that keeps an event locked while it waits
for a command. -/
theorem Sound.led_of_holder (h : s.Sound) (hholder : holder s.system o = some t) :
    ∃ u, ReflTransGen s.WaitsFor t u ∧
      ((∃ request s', Step s (.ask u request) s') ∨ ∃ m, s.HoldsUp u m) := by
  obtain ⟨u, hchain, ⟨o', hheld⟩, hend⟩ := h.waits_end hholder
  obtain ⟨request, hasks⟩ := h.asks?_of_holder hheld
  obtain ⟨call, next, queues, htask⟩ := task_of_asks? hasks
  refine ⟨u, hchain, ?_⟩
  cases hserve : System.serve stillEngine u request s.system with
  | some reply => exact .inl ⟨request, _, .ask htask hserve⟩
  | none =>
    rcases waits_of_serve_eq_none hserve with ⟨event, v, rfl, hholder'⟩ | ⟨m, rfl, hpending⟩
    · exact absurd ⟨event, hasks, hholder'⟩ (hend v)
    · refine .inr ⟨m, ⟨o', hheld⟩, hasks, ?_⟩
      cases hstatus : s.world.status m with
      | pending => rfl
      | complete => exact absurd hstatus hpending

/-- In every state that a machine gets to, calls that do not wait for commands are held up by
nothing but measurements of two events at one position. -/
theorem held_up_by_measurements (hs : s.Reachable) : HeldUpByMeasurements s := by
  have hsound := sound_of_reachable hs
  refine ⟨?_, fun u m => measures_of_holds hs, ?_⟩
  · intro t call hbusy hcall c hasks
    obtain ⟨request, next, queues, htask⟩ := task_of_busy hbusy
    cases (asks?_of_task htask).symm.trans hasks
    cases awaited?_of_prompt hs htask hcall
  · intro t call hbusy hcall
    obtain ⟨request, next, queues, htask⟩ := task_of_busy hbusy
    have hprompt := awaited?_of_prompt hs htask hcall
    cases hserve : System.serve stillEngine t request s.system with
    | some reply => exact ⟨t, .refl, .inl ⟨request, _, .ask htask hserve⟩⟩
    | none =>
      rcases waits_of_serve_eq_none hserve with ⟨event, v, rfl, hholder⟩ | ⟨m, rfl, -⟩
      · obtain ⟨u, hchain, hend⟩ := hsound.led_of_holder hholder
        exact ⟨u, .head ⟨event, asks?_of_task htask, hholder⟩ hchain, hend⟩
      · cases hprompt

/-! ### A query of an event that is measured -/

namespace Measured

def first : Event := ⟨0, .empty⟩

def second : Event := ⟨1, .empty⟩

/-- Two events are recorded at one position, which then runs, and the queue is paused. -/
def recording : List Turn :=
  [.call 0 (.newQueue {}), .call 0 (.newEvent .empty), .call 0 (.newEvent .empty),
    .call 0 (.record first 0), .call 0 (.record second 0)] ++
  List.replicate 5 (.worker 0) ++ [.call 0 (.setPaused 0 true)]

def paused : Machine := reached recording (start fun _ => 0)

/-- One thread measures the events, another queries the first, and the worker comes to the gate. -/
def meeting : List Beat :=
  .enter 0 (.elapsedTime first second) :: List.replicate 12 (.ask 0) ++
    [.enter 1 (.query first), .worker 0]

def met : Machine := playedTo meeting paused

theorem met_reachable : met.Reachable := by
  have hpaused : Run (start fun _ => 0) _ paused := run_reached (by decide)
  have hmet : Run paused _ met := run_playedTo (by decide)
  exact ⟨_, _, hpaused.trans hmet⟩

end Measured

open Measured in
theorem held_up_by_measurements_met :
    (∀ c, met.asks? 1 ≠ some (.engine (.await c))) ∧
      ∃ call start stop, met.Busy 0 call ∧ call.Compares start stop ∧
        MeasuresAgainst 0 start stop met.system 1 := by
  have hheld : HeldUpByMeasurements met := held_up_by_measurements met_reachable
  have hbusy : met.Busy 1 (.query first) := ⟨_, rfl, rfl, _, _, rfl⟩
  exact ⟨hheld.prompt 1 _ hbusy rfl, hheld.measures 0 1 ⟨0, rfl⟩ rfl⟩

open Measured in
/-- A query waits for the lock of an event whose holder waits for a marker on a paused queue, and
neither of the two threads nor the worker can go on. -/
theorem query_held_up :
    met.Reachable ∧ met.Busy 1 (.query first) ∧ met.WaitsFor 1 0 ∧ met.HoldsUp 0 1 ∧
      (met.world.queue 0).paused = true ∧ (∀ q, met.world.step? q = none) ∧
        ∀ t, t = 0 ∨ t = 1 → ∀ request s', ¬ Step met (.ask t request) s' := by
  have hfirst : met.asks? 0 = some (.engine (.await 1)) := rfl
  have hsecond : met.asks? 1 = some (.lock first) := rfl
  refine ⟨met_reachable, ⟨_, rfl, rfl, _, _, rfl⟩, ⟨first, hsecond, rfl⟩, ⟨⟨0, rfl⟩, hfirst, rfl⟩,
    rfl, ?_, ?_⟩
  · intro q
    have hnone : ∀ r, r < met.world.queues.length → met.world.step? r = none := by decide
    cases hstep : met.world.step? q with
    | none => rfl
    | some w => exact hstep.symm.trans (hnone q (World.lt_of_step?_eq_some hstep))
  · rintro t (rfl | rfl) request s' hstep
    · cases hstep with
      | ask htask hserve =>
        cases (asks?_of_task htask).symm.trans hfirst
        cases hserve
    · cases hstep with
      | ask htask hserve =>
        cases (asks?_of_task htask).symm.trans hsecond
        cases hserve

end SyncPoint.Host.Machine
