import SyncPoint.Proofs.Host.Lines

/-!
# Later states of a world

Whatever workers and callers do, a command keeps everything but its completion, one that has run
stays as it is, and a queue keeps what it was made with.
-/

namespace SyncPoint.Host.World

/-- `w'` is a later state of `w`. -/
structure Grows (w w' : World) : Prop where
  commands_le : w.commands.length ≤ w'.commands.length
  queues_le : w.queues.length ≤ w'.queues.length
  command : ∀ c, c < w.commands.length →
    w'.command c = { w.command c with completion := (w'.command c).completion }
  complete : ∀ c, w.status c = .complete → (w'.command c).completion = (w.command c).completion
  queue : ∀ q, q < w.queues.length → (w'.queue q).id = (w.queue q).id ∧
    (w'.queue q).profiling = (w.queue q).profiling ∧ (w'.queue q).clock = (w.queue q).clock

namespace Grows

variable {w w' w'' : World}

theorem refl (w : World) : w.Grows w :=
  ⟨Nat.le_refl _, Nat.le_refl _, fun _ _ => rfl, fun _ _ => rfl, fun _ _ => ⟨rfl, rfl, rfl⟩⟩

theorem status (h : w.Grows w') {c : CommandRef} (hc : w.status c = .complete) :
    w'.status c = .complete := by
  rw [World.status, h.complete c hc]
  exact hc

theorem trans (h : w.Grows w') (h' : w'.Grows w'') : w.Grows w'' := by
  refine ⟨Nat.le_trans h.commands_le h'.commands_le, Nat.le_trans h.queues_le h'.queues_le, ?_, ?_,
    ?_⟩
  · intro c hc
    rw [h'.command c (Nat.lt_of_lt_of_le hc h.commands_le), h.command c hc]
  · intro c hc
    rw [h'.complete c (h.status hc), h.complete c hc]
  · intro q hq
    obtain ⟨hid, hprofiling, hclock⟩ := h.queue q hq
    obtain ⟨hid', hprofiling', hclock'⟩ := h'.queue q (Nat.lt_of_lt_of_le hq h.queues_le)
    exact ⟨hid'.trans hid, hprofiling'.trans hprofiling, hclock'.trans hclock⟩

theorem queue_command (h : w.Grows w') {c : CommandRef} (hc : c < w.commands.length) :
    (w'.command c).queue = (w.command c).queue := by
  rw [h.command c hc]

theorem waitList_command (h : w.Grows w') {c : CommandRef} (hc : c < w.commands.length) :
    (w'.command c).waitList = (w.command c).waitList := by
  rw [h.command c hc]

/-- The commands that a queue accepted stay the first that it accepted. -/
theorem accepted (h : w.Grows w') (q : QueueRef) : w.accepted q <+: w'.accepted q := by
  have hold : ∀ c ∈ List.range w.commands.length,
      decide ((w'.command c).queue = q) = decide ((w.command c).queue = q) := fun c hc => by
    rw [h.queue_command (List.mem_range.1 hc)]
  obtain ⟨more, hmore⟩ := Nat.exists_eq_add_of_le h.commands_le
  rw [World.accepted, World.accepted, hmore, List.range_add, List.filter_append,
    List.filter_congr hold]
  exact List.prefix_append _ _

/-- What has run of a queue stays what ran first. -/
theorem completed (h : w.Grows w') (hsound : w.Sound) (hsound' : w'.Sound) (q : QueueRef) :
    w.completed q <+: w'.completed q := by
  have hprefix : w.completed q <+: w'.accepted q :=
    List.IsPrefix.trans ⟨_, (hsound.line q).symm⟩ (h.accepted q)
  have hprefix' : w'.completed q <+: w'.accepted q := ⟨_, (hsound'.line q).symm⟩
  refine List.prefix_of_prefix_length_le hprefix hprefix' (List.Sublist.length_le ?_)
  have hall : (w.completed q).filter (fun c => w'.status c = .complete) = w.completed q :=
    List.filter_eq_self.2 fun c hc => by
      have hcomplete : w.status c = .complete := by simpa using (List.mem_filter.1 hc).2
      simpa using h.status hcomplete
  rw [← hall]
  exact hprefix.sublist.filter _

/-- Only a queue changed, and it keeps what it was made with. -/
theorem setQueue (w : World) (q : QueueRef) {queue : Queue} (hid : queue.id = (w.queue q).id)
    (hprofiling : queue.profiling = (w.queue q).profiling)
    (hclock : queue.clock = (w.queue q).clock) : w.Grows (w.setQueue q queue) := by
  refine ⟨Nat.le_refl _, by simp, fun _ _ => rfl, fun _ _ => rfl, fun r hr => ?_⟩
  by_cases hrq : r = q
  · subst r
    rw [w.queue_setQueue_self hr]
    exact ⟨hid, hprofiling, hclock⟩
  · rw [w.queue_setQueue_of_ne hrq]
    exact ⟨rfl, rfl, rfl⟩

theorem stamp (w : World) (q : QueueRef) (timed : Bool) : w.Grows (w.stamp q timed).2 := by
  refine ⟨by simp, by simp, ?_, ?_, ?_⟩ <;> simp

theorem of_works (hsound : w.Sound) {q : QueueRef} (h : w.Works q w') : w.Grows w' := by
  cases h with
  | receive | enter | pass => exact setQueue w q rfl rfl rfl
  | start | stop => exact (stamp w q _).trans (setQueue _ q rfl rfl rfl)
  | @act _ _ action _ _ =>
    refine setQueue w q ?_ ?_ ?_ <;> cases action <;> rfl
  | @complete c times hplace =>
    have hpending := hsound.pending_of_mem (q := q) (c := c) (by simp [hplace, Worker.holding])
    refine trans ?_ (setQueue _ q rfl rfl rfl)
    refine ⟨by simp, Nat.le_refl _, fun d hd => ?_, fun d hd => ?_, fun _ _ => ⟨rfl, rfl, rfl⟩⟩
    · by_cases hdc : d = c
      · subst d
        rw [w.command_setCommand_self hd]
      · rw [w.command_setCommand_of_ne hdc]
    · have hdc : d ≠ c := by
        rintro rfl
        rw [hpending] at hd
        cases hd
      rw [w.command_setCommand_of_ne hdc]

theorem of_called (h : w.Called w') : w.Grows w' := by
  cases h with
  | addQueue config =>
    refine ⟨by simp, by simp, fun _ _ => by simp [World.command],
      fun _ _ => by simp [World.command], fun q hq => ?_⟩
    rw [w.queue_addQueue_of_lt config hq]
    exact ⟨rfl, rfl, rfl⟩
  | cloneHandle q | dropHandle q | setPaused q _ | shutdown q => exact setQueue w q rfl rfl rfl
  | submit command hpending =>
    cases htakes : w.takes command.queue with
    | false =>
      rw [state_of_not_takes htakes]
      exact refl w
    | true =>
      refine ⟨by simp [htakes], by simp [htakes], fun c hc => ?_, fun c hc => ?_,
        fun q hq => ?_⟩
      · rw [command_submit_of_ne htakes (Nat.ne_of_lt hc)]
      · rw [command_submit_of_ne htakes (Nat.ne_of_lt (lt_of_status_eq_complete hc))]
      · by_cases hqueue : q = command.queue
        · subst q
          rw [queue_submit_self htakes]
          exact ⟨rfl, rfl, rfl⟩
        · rw [queue_submit_of_ne htakes hqueue]
          exact ⟨rfl, rfl, rfl⟩

end Grows

end SyncPoint.Host.World
