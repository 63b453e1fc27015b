import SyncPoint.Proofs.Host.Footprint
import SyncPoint.Proofs.Host.Front

/-!
# What workers read

A worker reads the clock before and after the work of a timed command, and completes the command
with the two readings.  `World.Stamped` carries any property of those readings from the step in
which they are taken to every later world.

Its first use says which commands have readings (`World.Timed`): a queue that profiles times its
commands, except for markers that are asked to be untimed (`Command.Suits`), and a command that has
run has timestamps exactly if it is timed.
-/

namespace SyncPoint.Host

/-- The command is timed as commands are on a queue that profiles, or that does not. -/
structure Command.Suits (command : Command) (profiling : Bool) : Prop where
  profiled : command.timed = true → profiling = true
  whole : command.kind ≠ .marker → command.timed = profiling

namespace World

variable {w w' : World} {q : QueueRef} {c : CommandRef} {command : Command}

theorem Grows.timed_command (h : w.Grows w') (hc : c < w.commands.length) :
    (w'.command c).timed = (w.command c).timed := by
  rw [h.command c hc]

theorem Grows.times?_of_complete (h : w.Grows w') (hc : w.status c = .complete) :
    w'.times? c = w.times? c :=
  congrArg Completion.times? (h.complete c hc)

theorem complete_of_times? {times : Timestamps} (h : w.times? c = some times) :
    w.status c = .complete := by
  unfold times? at h
  unfold status
  cases hcompletion : (w.command c).completion with
  | pending => simp [hcompletion, Completion.times?] at h
  | complete => rfl

theorem Called.status (h : w.Called w') : w'.status = w.status := by
  cases h with
  | addQueue config =>
    funext c
    simp [World.status, World.command]
  | cloneHandle | dropHandle | setPaused | shutdown => rfl
  | submit command hpending =>
    cases htakes : w.takes command.queue with
    | false =>
      rw [state_of_not_takes htakes]
    | true => exact status_submit htakes hpending

/-- A new queue's worker is idle, as that of a queue which does not exist. -/
theorem Called.worker_eq (h : w.Called w') (q : QueueRef) :
    (w'.queue q).worker = (w.queue q).worker := by
  rcases Nat.lt_or_ge q w.queues.length with hq | hq
  · exact h.worker hq
  · rw [w.queue_of_le hq]
    have hnone : w'.queues.length = w.queues.length → (w'.queue q).worker = .idle := by
      intro hlength
      rw [w'.queue_of_le (hlength ▸ hq)]
      rfl
    cases h with
    | addQueue config =>
      rcases Nat.eq_or_lt_of_le hq with rfl | hlt
      · rw [queue_addQueue_self]
        rfl
      · rw [queue_of_le _ (by rw [length_queues_addQueue]; exact hlt)]
    | cloneHandle | dropHandle | setPaused | shutdown => exact hnone (length_queues_setQueue ..)
    | submit command =>
      cases htakes : w.takes command.queue with
      | false => exact hnone (by rw [state_of_not_takes htakes])
      | true => exact hnone (length_queues_submit htakes)

/-- All that the command requires has run, but for the command itself. -/
def Clear (w : World) (c : CommandRef) : Prop :=
  c < w.commands.length ∧ ∀ d, w.Requires c d → d ≠ c → w.status d = .complete

theorem Sound.clear_of_complete (h : w.Sound) (hc : w.status c = .complete) : w.Clear c := by
  refine ⟨lt_of_status_eq_complete hc, ?_⟩
  intro d hd _
  exact h.complete_of_requires hc hd

theorem Sound.clear_of_executing (h : w.Sound) (hc : (w.queue q).worker.executing? = some c) :
    w.Clear c := by
  refine ⟨(h.queue_of_mem_holding (Worker.mem_holding_of_executing? hc)).1, ?_⟩
  intro d hd hne
  exact h.complete_of_executing_of_requires hc hd hne

/-! ## Readings of a command -/

/-- `begun` holds of what was read for every command that a worker has begun, and `ended` of the
times of every command that a worker is done with. -/
structure Stamped (begun : World → CommandRef → Option UInt64 → Prop)
    (ended : World → CommandRef → Option Timestamps → Prop) (w : World) : Prop where
  running : ∀ q c start rest, (w.queue q).worker = .running c start rest → begun w c start
  finishing : ∀ q c times, (w.queue q).worker = .finishing c times → ended w c times
  complete : ∀ c, w.status c = .complete → ended w c (w.times? c)

namespace Stamped

variable {begun : World → CommandRef → Option UInt64 → Prop}
  {ended : World → CommandRef → Option Timestamps → Prop}

/-- What is known of a command's readings stays known. -/
def Kept (begun : World → CommandRef → Option UInt64 → Prop)
    (ended : World → CommandRef → Option Timestamps → Prop) (w w' : World) : Prop :=
  ∀ c, w.Clear c → (∀ start, begun w c start → begun w' c start) ∧
    ∀ times, ended w c times → ended w' c times

theorem of_worker_eq (h : Stamped begun ended w) (hsound : w.Sound)
    (hkept : Kept begun ended w w') (hworker : (w'.queue q).worker = (w.queue q).worker) :
    (∀ c start rest, (w'.queue q).worker = .running c start rest → begun w' c start) ∧
      ∀ c times, (w'.queue q).worker = .finishing c times → ended w' c times := by
  rw [hworker]
  constructor
  · intro c start rest hplace
    have hclear := hsound.clear_of_executing (q := q) (c := c) (by rw [hplace]; rfl)
    exact (hkept c hclear).1 start (h.running q c start rest hplace)
  · intro c times hplace
    have hclear := hsound.clear_of_executing (q := q) (c := c) (by rw [hplace]; rfl)
    exact (hkept c hclear).2 times (h.finishing q c times hplace)

theorem of_complete (h : Stamped begun ended w) (hsound : w.Sound) (hgrows : w.Grows w')
    (hkept : Kept begun ended w w') (hc : w.status c = .complete) : ended w' c (w'.times? c) := by
  rw [hgrows.times?_of_complete hc]
  exact (hkept c (hsound.clear_of_complete hc)).2 _ (h.complete c hc)

/-- It is enough to look at the two steps in which a worker reads the clock. -/
theorem of_works (h : Stamped begun ended w) (hsound : w.Sound) (hworks : w.Works q w')
    (hkept : Kept begun ended w w')
    (hstart : ∀ c, (w.queue q).worker = .waiting c [] →
      begun w' c (w.stamp q (w.command c).timed).1)
    (hstop : ∀ c start, (w.queue q).worker = .running c start [] → begun w c start →
      ended w' c (pairTimes? start (w.stamp q start.isSome).1)) : Stamped begun ended w' := by
  have hgrows := Grows.of_works hsound hworks
  have hworker : ∀ r, (∀ c start rest, (w'.queue r).worker = .running c start rest →
      begun w' c start) ∧ ∀ c times, (w'.queue r).worker = .finishing c times →
        ended w' c times := by
    intro r
    by_cases hr : r = q
    · subst r
      obtain ⟨touch, htouch, hw'⟩ := hworks.touches
      have hqueue : w'.queue q = touch.queue := by
        rw [hw']
        exact queue_touched_self hworks.lt
      rw [hqueue]
      cases htouch with
      | receive | enter | pass | complete => exact ⟨nofun, nofun⟩
      | start hplace =>
        refine ⟨?_, nofun⟩
        intro d start rest hrunning
        cases hrunning
        exact hstart _ hplace
      | @act c start action rest hplace =>
        refine ⟨?_, nofun⟩
        intro d start rest hrunning
        cases hrunning
        have hclear := hsound.clear_of_executing (q := q) (c := c) (by rw [hplace]; rfl)
        exact (hkept c hclear).1 _ (h.running q c _ _ hplace)
      | stop hplace =>
        refine ⟨nofun, ?_⟩
        intro d times hfinishing
        cases hfinishing
        exact hstop _ _ hplace (h.running q _ _ _ hplace)
    · exact h.of_worker_eq hsound hkept (by rw [hworks.queue_of_ne hr])
  refine ⟨fun r => (hworker r).1, fun r => (hworker r).2, ?_⟩
  intro c hc
  cases hstatus : w.status c with
  | complete => exact h.of_complete hsound hgrows hkept hstatus
  | pending =>
    obtain ⟨times, hplace, htimes⟩ := hworks.completes hstatus hc
    have hclear := hsound.clear_of_executing (q := q) (c := c) (by rw [hplace]; rfl)
    rw [htimes]
    exact (hkept c hclear).2 times (h.finishing q c times hplace)

theorem of_called (h : Stamped begun ended w) (hsound : w.Sound) (hcalled : w.Called w')
    (hkept : Kept begun ended w w') : Stamped begun ended w' := by
  have hworker := fun r => h.of_worker_eq hsound hkept (hcalled.worker_eq r)
  refine ⟨fun r => (hworker r).1, fun r => (hworker r).2, ?_⟩
  intro c hc
  rw [hcalled.status] at hc
  exact h.of_complete hsound (.of_called hcalled) hkept hc

end Stamped

/-! ## Which commands are timed -/

/-- Every command suits its queue, and what was read for it is what its being timed calls for. -/
structure Timed (w : World) : Prop where
  suits : ∀ c, c < w.commands.length → (w.command c).Suits (w.queue (w.command c).queue).profiling
  stamped : Stamped (fun w c start => start.isSome = (w.command c).timed)
    (fun w c times => times.isSome = (w.command c).timed) w

theorem Grows.suits (h : w.Grows w') (hsound : w.Sound) (hc : c < w.commands.length)
    (hsuits : (w.command c).Suits (w.queue (w.command c).queue).profiling) :
    (w'.command c).Suits (w'.queue (w'.command c).queue).profiling := by
  rw [h.queue_command hc, (h.queue _ (hsound.owner c hc)).2.1, h.command c hc]
  exact ⟨hsuits.profiled, hsuits.whole⟩

theorem suits_submit (hsuits : command.Suits (w.queue command.queue).profiling)
    (hc : w.commands.length ≤ c) (hc' : c < (w.submit command).state.commands.length) :
    ((w.submit command).state.command c).Suits
      ((w.submit command).state.queue ((w.submit command).state.command c).queue).profiling := by
  cases htakes : w.takes command.queue with
  | false =>
    rw [state_of_not_takes htakes] at hc'
    exact absurd hc' (Nat.not_lt.2 hc)
  | true =>
    rw [commands_submit htakes, List.length_append, List.length_singleton] at hc'
    obtain rfl : c = w.commands.length := Nat.le_antisymm (Nat.lt_succ_iff.1 hc') hc
    rw [command_submit_self htakes, queue_submit_self htakes]
    exact hsuits

@[simp] theorem isSome_stamp (w : World) (q : QueueRef) (timed : Bool) :
    (w.stamp q timed).1.isSome = timed := by
  cases timed <;> rfl

@[simp] theorem isSome_pairTimes? (start stop : Option UInt64) :
    (pairTimes? start stop).isSome = (start.isSome && stop.isSome) := by
  cases start <;> cases stop <;> rfl

namespace Timed

theorem kept (hgrows : w.Grows w') : Stamped.Kept (fun w c start => start.isSome =
    (w.command c).timed) (fun w c times => times.isSome = (w.command c).timed) w w' := by
  intro c hc
  have htimed := (hgrows.timed_command hc.1).symm
  exact ⟨fun _ hstart => hstart.trans htimed, fun _ htimes => htimes.trans htimed⟩

theorem of_works (h : w.Timed) (hsound : w.Sound) (hworks : w.Works q w') : w'.Timed := by
  have hgrows := Grows.of_works hsound hworks
  have htimed : ∀ c, c ∈ (w.queue q).worker.holding →
      (w'.command c).timed = (w.command c).timed := by
    intro c hc
    exact hgrows.timed_command (hsound.queue_of_mem_holding hc).1
  refine ⟨?_, h.stamped.of_works hsound hworks (kept hgrows) ?_ ?_⟩
  · intro c hc
    rw [hworks.lengths.2] at hc
    exact hgrows.suits hsound hc (h.suits c hc)
  · intro c hplace
    rw [isSome_stamp, htimed c (by rw [hplace]; exact List.mem_cons_self)]
  · intro c start hplace hstart
    rw [isSome_pairTimes?, isSome_stamp, Bool.and_self,
      htimed c (by rw [hplace]; exact List.mem_cons_self)]
    exact hstart

theorem of_called (h : w.Timed) (hsound : w.Sound) (hcalled : w.Called w')
    (hnew : ∀ c, w.commands.length ≤ c → c < w'.commands.length →
      (w'.command c).Suits (w'.queue (w'.command c).queue).profiling) : w'.Timed := by
  have hgrows := Grows.of_called hcalled
  refine ⟨?_, h.stamped.of_called hsound hcalled (kept hgrows)⟩
  intro c hc
  rcases Nat.lt_or_ge c w.commands.length with hold | hlate
  · exact hgrows.suits hsound hold (h.suits c hold)
  · exact hnew c hlate hc

theorem empty (process : Nat → UInt64) : (World.empty process).Timed := by
  refine ⟨nofun, nofun, nofun, ?_⟩
  intro c hc
  exact absurd (lt_of_status_eq_complete hc) (Nat.not_lt_zero c)

/-- A command that has run has timestamps exactly if it is timed. -/
theorem isSome_times? (h : w.Timed) (hc : w.status c = .complete) :
    (w.times? c).isSome = (w.command c).timed :=
  h.stamped.complete c hc

/-- The queue of a command that has timestamps profiles. -/
theorem profiling_of_times? (h : w.Timed) {times : Timestamps} (hc : w.times? c = some times) :
    (w.queue (w.command c).queue).profiling = true := by
  have hcomplete := complete_of_times? hc
  refine (h.suits c (lt_of_status_eq_complete hcomplete)).profiled ?_
  rw [← h.isSome_times? hcomplete, hc]
  rfl

end Timed

end World

end SyncPoint.Host
