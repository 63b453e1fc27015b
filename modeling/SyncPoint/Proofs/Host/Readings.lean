import SyncPoint.Proofs.Host.Timing

/-!
# Clocks that go on

Workers only ever take the next reading of a clock (`World.Ticks`).  Where the readings that were
taken of a clock never decrease, they tell the order of execution: a command's times are in order,
they are past, and whatever the command requires had stopped before it started (`World.Timely`).
-/

namespace SyncPoint.Host

/-- The readings that were taken never decrease. -/
def Clock.Steady (clock : Clock) : Prop :=
  ∀ i j, 1 ≤ i → i ≤ j → j ≤ clock.taken → clock.reading i ≤ clock.reading j

theorem Clock.toNat_stepping (step : UInt64) (k : Nat) :
    (stepping step k).toNat = min (k * step.toNat) (UInt64.size - 1) := by
  refine UInt64.toNat_ofNat_of_lt ?_
  exact Nat.lt_of_le_of_lt (Nat.min_le_right _ _) (by decide)

theorem Clock.stepping_mono (step : UInt64) {i j : Nat} (h : i ≤ j) :
    stepping step i ≤ stepping step j := by
  have hmul := Nat.mul_le_mul_right step.toNat h
  rw [UInt64.le_iff_toNat_le, toNat_stepping, toNat_stepping]
  omega

/-- The reading that was taken last. -/
def Clock.shown (clock : Clock) : UInt64 :=
  if clock.taken = 0 then 0 else clock.reading clock.taken

namespace World

/-- The readings taken of a clock, if there is one, never decrease. -/
def Steady (w : World) (k : ClockRef) : Prop :=
  ∀ clock, w.clocks[k]? = some clock → clock.Steady

/-- What a clock showed last. -/
def shown (w : World) (k : ClockRef) : UInt64 :=
  match w.clocks[k]? with
  | none => 0
  | some clock => clock.shown

/-- The clock that is read for a command. -/
def clockOf (w : World) (c : CommandRef) : ClockRef := (w.queue (w.command c).queue).clock

/-- Clocks keep their readings; some of them may have been taken. -/
def Ticks (w w' : World) : Prop :=
  ∀ (k : ClockRef) clock, w.clocks[k]? = some clock →
    ∃ n, w'.clocks[k]? = some { clock with taken := clock.taken + n }

/-- What the command requires had stopped by then, so far as the clock `k` was read for it. -/
def Follows (w : World) (k : ClockRef) (c : CommandRef) (reading : UInt64) : Prop :=
  ∀ d, w.Requires c d → d ≠ c → w.clockOf d = k →
    ∀ times, w.times? d = some times → times.stop ≤ reading

/-- What was read of the clock `k` when the command was begun. -/
def Begun (k : ClockRef) (w : World) (c : CommandRef) (start : Option UInt64) : Prop :=
  w.clockOf c = k → ∀ reading ∈ start, reading ≤ w.shown k ∧ w.Follows k c reading

/-- What was read of the clock `k` by the end of the command. -/
def Ended (k : ClockRef) (w : World) (c : CommandRef) (times : Option Timestamps) : Prop :=
  w.clockOf c = k → ∀ t ∈ times,
    t.start ≤ t.stop ∧ t.stop ≤ w.shown k ∧ w.Follows k c t.start

/-- The readings of the clock `k` tell the order of execution. -/
def Timely (w : World) (k : ClockRef) : Prop := Stamped (Begun k) (Ended k) w

variable {w w' : World} {k : ClockRef} {q : QueueRef} {c d : CommandRef}

/-! ## Reading clocks -/

theorem eq_of_mem_stamp {timed : Bool} {reading : UInt64} (h : reading ∈ (w.stamp q timed).1) :
    reading = (w.stamp q timed).2.shown (w.queue q).clock := by
  cases timed with
  | false => cases h
  | true =>
    cases h
    cases hclock : w.clocks[(w.queue q).clock]? with
    | none => simp [stamp, readClock, shown, hclock]
    | some clock =>
      have hlt := (List.getElem?_eq_some_iff.1 hclock).1
      simp [stamp, readClock, shown, Clock.shown, Clock.read, hlt]

theorem mem_pairTimes? {start stop : Option UInt64} {times : Timestamps} :
    times ∈ pairTimes? start stop ↔ times.start ∈ start ∧ times.stop ∈ stop := by
  obtain ⟨first, last⟩ := times
  cases start <;> cases stop <;> simp [pairTimes?]

theorem Ticks.refl (w : World) : w.Ticks w :=
  fun _ _ hclock => ⟨0, hclock⟩

theorem Ticks.trans {w'' : World} (h : w.Ticks w') (h' : w'.Ticks w'') : w.Ticks w'' := by
  intro k clock hclock
  obtain ⟨n, hlater⟩ := h k clock hclock
  obtain ⟨m, hlater'⟩ := h' k _ hlater
  exact ⟨n + m, by rw [hlater', Nat.add_assoc]⟩

theorem Ticks.of_works (h : w.Works q w') : w.Ticks w' := by
  obtain ⟨touch, -, rfl⟩ := h.touches
  intro k clock hclock
  by_cases hread : touch.reads = true ∧ (w.queue q).clock = k
  · refine ⟨1, ?_⟩
    rw [clocks_touched, if_pos hread.1, hread.2, List.getElem?_modify_eq, hclock]
    rfl
  · refine ⟨0, ?_⟩
    rw [clocks_touched]
    split
    next hreads =>
      have hne : (w.queue q).clock ≠ k := fun heq => hread ⟨hreads, heq⟩
      simpa [hne] using hclock
    next => exact hclock

/-- Callers read no clock. -/
theorem Called.clock_eq (h : w.Called w') (hk : k < w.clocks.length) :
    w'.clocks[k]? = w.clocks[k]? := by
  cases h with
  | addQueue config =>
    cases hchoice : config.clock with
    | process => simp [World.addQueue, addClock, hchoice]
    | own reading => simp [World.addQueue, addClock, hchoice, List.getElem?_append_left hk]
  | cloneHandle | dropHandle | setPaused | shutdown => rfl
  | submit command =>
    cases htakes : w.takes command.queue with
    | false =>
      rw [state_of_not_takes htakes]
    | true =>
      rw [submit_of_takes htakes]
      rfl

theorem Ticks.of_called (h : w.Called w') : w.Ticks w' := by
  intro k clock hclock
  have hlt := (List.getElem?_eq_some_iff.1 hclock).1
  exact ⟨0, (h.clock_eq hlt).trans hclock⟩

theorem Ticks.steady (h : w.Ticks w') (hsteady : w'.Steady k) : w.Steady k := by
  intro clock hclock
  obtain ⟨n, hlater⟩ := h k clock hclock
  intro i j hi hij hj
  exact hsteady _ hlater i j hi hij (Nat.le_add_right_of_le hj)

theorem Ticks.shown_le (h : w.Ticks w') (hsteady : w'.Steady k) : w.shown k ≤ w'.shown k := by
  unfold shown
  cases hclock : w.clocks[k]? with
  | none => exact UInt64.zero_le
  | some clock =>
    obtain ⟨n, hlater⟩ := h k clock hclock
    rw [hlater]
    by_cases hnone : clock.taken = 0
    · simp [Clock.shown, hnone]
    · have hsome : clock.taken + n ≠ 0 := by omega
      have hle := hsteady _ hlater clock.taken (clock.taken + n) (by omega) (by omega) (by simp)
      simpa [Clock.shown, hnone, hsome] using hle

/-! ## The order of readings -/

theorem Grows.clockOf (h : w.Grows w') (hsound : w.Sound) (hc : c < w.commands.length) :
    w'.clockOf c = w.clockOf c := by
  rw [World.clockOf, World.clockOf, h.queue_command hc]
  exact (h.queue _ (hsound.owner c hc)).2.2

theorem Requires.of_grows (hgrows : w.Grows w') (hsound : w.Sound) (hc : c < w.commands.length)
    (h : w'.Requires c d) : w.Requires c d := by
  induction h with
  | refl => exact .refl
  | @tail e d _ hed ih =>
    have he : e < w.commands.length := Nat.lt_of_le_of_lt (hsound.le_of_requires ih) hc
    exact ih.tail (hed.of_grows hgrows he)

theorem Follows.grows (hgrows : w.Grows w') (hsound : w.Sound) (hclear : w.Clear c)
    {reading : UInt64} (h : w.Follows k c reading) : w'.Follows k c reading := by
  intro d hd hne hclock times htimes
  have hrequires := Requires.of_grows hgrows hsound hclear.1 hd
  have hcomplete := hclear.2 d hrequires hne
  rw [hgrows.times?_of_complete hcomplete] at htimes
  rw [hgrows.clockOf hsound (lt_of_status_eq_complete hcomplete)] at hclock
  exact h d hrequires hne hclock times htimes

namespace Timely

theorem kept (hgrows : w.Grows w') (hsound : w.Sound)
    (hshown : w.shown k ≤ w'.shown k) : Stamped.Kept (Begun k) (Ended k) w w' := by
  intro c hclear
  have hclock := hgrows.clockOf hsound hclear.1
  constructor
  · intro start hbegun hc reading hreading
    obtain ⟨hpast, hfollows⟩ := hbegun (hclock ▸ hc) reading hreading
    exact ⟨UInt64.le_trans hpast hshown, hfollows.grows hgrows hsound hclear⟩
  · intro times hended hc t ht
    obtain ⟨horder, hpast, hfollows⟩ := hended (hclock ▸ hc) t ht
    exact ⟨horder, UInt64.le_trans hpast hshown, hfollows.grows hgrows hsound hclear⟩

/-- Whatever has run had stopped by the last reading. -/
theorem follows_shown (h : w.Timely k) (c : CommandRef) :
    w.Follows k c (w.shown k) := by
  intro d _ _ hclock times htimes
  exact (h.complete d (complete_of_times? htimes) hclock times htimes).2.1

theorem of_works (h : w.Timely k) (hsound : w.Sound) (hworks : w.Works q w')
    (hshown : w.shown k ≤ w'.shown k) : w'.Timely k := by
  have hgrows := Grows.of_works hsound hworks
  have hkept := kept hgrows hsound hshown
  -- the worker reads the clock of the command that it holds
  have hheld : ∀ c, c ∈ (w.queue q).worker.holding → w'.clockOf c = k →
      (w.queue q).clock = k := by
    intro c hc hclock
    obtain ⟨hlt, hqueue⟩ := hsound.queue_of_mem_holding hc
    rw [← hclock, hgrows.clockOf hsound hlt, clockOf, hqueue]
  have hstep := hworks.advance?
  refine Stamped.of_works h hsound hworks hkept ?_ ?_
  · intro c hplace hclock reading hreading
    have hclear := hsound.clear_of_executing (q := q) (c := c) (by rw [hplace]; rfl)
    have hk := hheld c (by rw [hplace]; exact List.mem_cons_self) hclock
    obtain rfl : reading = w'.shown k := by
      simp only [advance?, hplace, Option.some.injEq] at hstep
      rw [eq_of_mem_stamp hreading, hk, ← hstep]
      rfl
    refine ⟨UInt64.le_refl _, ?_⟩
    intro d hd hne hk times htimes
    exact UInt64.le_trans ((h.follows_shown c).grows hgrows hsound hclear d hd hne hk times htimes)
      hshown
  · intro c start hplace hbegun hclock times htimes
    have hclear := hsound.clear_of_executing (q := q) (c := c) (by rw [hplace]; rfl)
    have hk := hheld c (by rw [hplace]; exact List.mem_cons_self) hclock
    obtain ⟨hstart, hstop⟩ := mem_pairTimes?.1 htimes
    obtain ⟨hpast, hfollows⟩ :=
      hbegun ((hgrows.clockOf hsound hclear.1).symm.trans hclock) times.start hstart
    have hlast : times.stop = w'.shown k := by
      simp only [advance?, hplace, Option.some.injEq] at hstep
      rw [eq_of_mem_stamp hstop, hk, ← hstep]
      rfl
    rw [hlast]
    exact ⟨UInt64.le_trans hpast hshown, UInt64.le_refl _, hfollows.grows hgrows hsound hclear⟩

theorem of_called (h : w.Timely k) (hsound : w.Sound) (hcalled : w.Called w')
    (hshown : w.shown k ≤ w'.shown k) : w'.Timely k :=
  Stamped.of_called h hsound hcalled (kept (.of_called hcalled) hsound hshown)

theorem empty (process : Nat → UInt64) (k : ClockRef) : (World.empty process).Timely k := by
  refine ⟨nofun, nofun, ?_⟩
  intro c hc
  exact absurd (lt_of_status_eq_complete hc) (Nat.not_lt_zero c)

/-! ## The times of one queue's commands -/

section Order

variable {t u : Timestamps} (ht : w.times? c = some t) (hc : w.clockOf c = k)
include ht hc

theorem start_le_stop (h : w.Timely k) : t.start ≤ t.stop :=
  (h.complete c (complete_of_times? ht) hc t ht).1

theorem stop_le_start (h : w.Timely k) (hrequires : w.Requires c d) (hne : d ≠ c)
    (hd : w.clockOf d = k) (hu : w.times? d = some u) : u.stop ≤ t.start :=
  (h.complete c (complete_of_times? ht) hc t ht).2.2 d hrequires hne hd u hu

end Order

end Timely

end World

end SyncPoint.Host
