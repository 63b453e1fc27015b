import SyncPoint.Proofs.Host.Footprint
import SyncPoint.Proofs.Host.Front
import SyncPoint.Proofs.Machine.Effects
import SyncPoint.Proofs.Machine.Replay
import SyncPoint.Proofs.Machine.Schedule
import SyncPoint.Proofs.Machine.Termination

/-!
# Scheduling does not matter

Where every queue reads a clock of its own and work looks at no trace but its own queue's, the
workers come to rest in one state, whoever goes on first (`Machine.settles_alike`): not only what
can be seen of commands, timestamps, traces and panics is the same, but all of it, and every worker
has made the same steps from the same places.

Steps of two workers commute, so the first step of one way to rest can be made first in any other
(`Machine.Settles.exchange`); the rest follows by induction.
-/

namespace SyncPoint.Host

theorem mem_of_mem_untilPanic {action : Action} {work : List Action}
    (h : action ∈ untilPanic work) : action ∈ work := by
  induction work with
  | nil => cases h
  | cons first rest ih =>
    cases first with
    | panic payload =>
      rw [List.mem_singleton.1 h]
      exact List.mem_cons_self
    | push | see =>
      rcases List.mem_cons.1 h with rfl | hrest
      · exact List.mem_cons_self
      · exact List.mem_cons_of_mem _ (ih hrest)

namespace Machine

variable {s s' s₁ s₂ : Machine} {l : Happening} {h h' h₁ h₂ : History} {q : QueueRef}

/-- A worker has only work of its command left to do, so it looks where that work looks. -/
theorem looksHome_of_separate (hs : s.Reachable) (hseparate : s.world.Separate) (q : QueueRef) :
    s.world.LooksHome q := by
  intro c start other rest hplace
  have hsound := (sound_of_reachable hs).world
  obtain ⟨process, h, hrun⟩ := hs
  have hbegun : (s.world.queue q).worker.begun? = some c := by rw [hplace]; rfl
  have hholding := Worker.mem_holding_of_begun? hbegun
  obtain ⟨hc, hqueue⟩ := hsound.queue_of_mem_holding hholding
  have hwork : .see other ∈ (s.world.command c).work := by
    refine mem_of_mem_untilPanic ?_
    rw [← (executed_of_run hrun).inFlight q c hbegun, hplace]
    exact List.mem_append_right _ List.mem_cons_self
  have hpending := hsound.pending_of_mem (List.mem_append_left _ hholding)
  exact (hseparate.traces c hc hpending other hwork).trans hqueue

/-- The workers alone go on until none can. -/
structure Settles (s : Machine) (h : History) (s' : Machine) : Prop where
  run : Run s h s'
  workers : ∀ l ∈ h, l.thread? = none
  stuck : ∀ q, s'.world.step? q = none

theorem Step.separate (hstep : Step s l s') (hl : l.thread? = none) (hsound : s.Sound)
    (hseparate : s.world.Separate) : s'.world.Separate := by
  cases hstep with
  | worker hstep => exact hseparate.of_works hsound.world (World.works_of_step? hstep)
  | enter | ask => cases hl

/-- Steps of two workers can be made in either order. -/
theorem Step.comm {m : Happening} (hs : s.Reachable) (hseparate : s.world.Separate)
    (hl : l.thread? = none) (hm : m.thread? = none) (h₁ : Step s l s₁) (h₂ : Step s m s₂) :
    l = m ∧ s₁ = s₂ ∨ ∃ s', Step s₁ m s' ∧ Step s₂ l s' := by
  cases h₁ with
  | enter | ask => cases hl
  | @worker q w₁ hstep₁ =>
    cases h₂ with
    | enter | ask => cases hm
    | @worker r w₂ hstep₂ =>
      by_cases hqr : q = r
      · subst r
        rw [hstep₁] at hstep₂
        cases hstep₂
        exact .inl ⟨rfl, rfl⟩
      · have hworks₁ := World.works_of_step? hstep₁
        have hworks₂ := World.works_of_step? hstep₂
        have hsound := (sound_of_reachable hs).world
        obtain ⟨w, hr, hq⟩ := hsound.works_comm hseparate hqr
          (looksHome_of_separate hs hseparate q) (looksHome_of_separate hs hseparate r)
          hworks₁ hworks₂
        -- neither worker has moved the other from its place
        rw [← hworks₁.queue_of_ne (Ne.symm hqr), ← hworks₂.queue_of_ne hqr]
        exact .inr ⟨s.withWorld w,
          .worker (s := s.withWorld w₁) (hr.step? (hsound.of_works hworks₁)),
          .worker (s := s.withWorld w₂) (hq.step? (hsound.of_works hworks₂))⟩

/-- A step that a worker can make is made on every way to rest, and it can as well be made first. -/
theorem Settles.exchange (hsettles : Settles s h s') (hs : s.Reachable)
    (hseparate : s.world.Separate) (hl : l.thread? = none) (hstep : Step s l s₁) :
    ∃ h', Settles s₁ h' s' ∧ h.Perm (l :: h') := by
  induction h generalizing s l s₁ with
  | nil =>
    cases hsettles.run.eq_of_nil
    cases hstep with
    | worker hstep =>
      rw [hsettles.stuck] at hstep
      cases hstep
    | enter | ask => cases hl
  | cons m rest ih =>
    obtain ⟨x, hfirst, hrest⟩ := hsettles.run.uncons
    have hm := hsettles.workers m List.mem_cons_self
    have hworkers := fun l hl => hsettles.workers l (List.mem_cons_of_mem _ hl)
    rcases Step.comm hs hseparate hl hm hstep hfirst with ⟨rfl, rfl⟩ | ⟨y, hlater, hother⟩
    · exact ⟨rest, ⟨hrest, hworkers, hsettles.stuck⟩, .refl _⟩
    · have hseparate' := hfirst.separate hm (sound_of_reachable hs) hseparate
      obtain ⟨h', hsettles', hperm⟩ := ih ⟨hrest, hworkers, hsettles.stuck⟩
        (hs.run hfirst.run) hseparate' hl hother
      refine ⟨m :: h', ⟨hlater.run.trans hsettles'.run, fun l hl => ?_, hsettles'.stuck⟩, ?_⟩
      · rcases List.mem_cons.1 hl with rfl | hl
        · exact hm
        · exact hsettles'.workers l hl
      · exact (hperm.cons m).trans (.swap l m h')

theorem Settles.unique (hsettles₁ : Settles s h₁ s₁) (hsettles₂ : Settles s h₂ s₂)
    (hs : s.Reachable) (hseparate : s.world.Separate) : s₁ = s₂ ∧ h₁.Perm h₂ := by
  induction h₁ generalizing s h₂ with
  | nil =>
    cases hsettles₁.run.eq_of_nil
    cases h₂ with
    | nil => exact ⟨hsettles₂.run.eq_of_nil.symm, .refl _⟩
    | cons l rest =>
      obtain ⟨x, hstep, -⟩ := hsettles₂.run.uncons
      have hl := hsettles₂.workers l List.mem_cons_self
      cases hstep with
      | worker hstep =>
        rw [hsettles₁.stuck] at hstep
        cases hstep
      | enter | ask => cases hl
  | cons l rest ih =>
    obtain ⟨x, hstep, hrest⟩ := hsettles₁.run.uncons
    have hl := hsettles₁.workers l List.mem_cons_self
    obtain ⟨h', hsettles', hperm⟩ := hsettles₂.exchange hs hseparate hl hstep
    have hseparate' := hstep.separate hl (sound_of_reachable hs) hseparate
    have hsettles := fun l hl => hsettles₁.workers l (List.mem_cons_of_mem _ hl)
    obtain ⟨rfl, hsame⟩ := ih ⟨hrest, hsettles, hsettles₁.stuck⟩ hsettles' (hs.run hstep.run)
      hseparate'
    exact ⟨rfl, (hsame.cons l).trans hperm.symm⟩

/-- Letting the workers go on is a run of theirs. -/
theorem run_settleIn (steps : Nat) (s : Machine) : ∃ h, (∀ l ∈ h, l.thread? = none) ∧
    Run s h (s.withWorld (World.settleIn steps s.world)) := by
  induction steps generalizing s with
  | zero => exact ⟨[], nofun, .refl⟩
  | succ steps ih =>
    rw [World.settleIn]
    split
    next => exact ⟨[], nofun, .refl⟩
    next w hw =>
      obtain ⟨q, -, hstep⟩ := List.exists_of_findSome?_eq_some hw
      obtain ⟨h, hworkers, hrun⟩ := ih (s.withWorld w)
      refine ⟨.worker q (s.world.queue q).worker :: h, ?_, (Step.worker hstep).run.trans hrun⟩
      intro l hl
      rcases List.mem_cons.1 hl with rfl | hl
      · rfl
      · exact hworkers l hl

theorem exists_settles (s : Machine) : ∃ h, Settles s h (s.withWorld s.world.settle) := by
  obtain ⟨h, hworkers, hrun⟩ := run_settleIn s.world.workload s
  exact ⟨h, hrun, hworkers, s.world.step?_settle⟩

/-- Where the workers come to rest does not depend on the order in which they go on. -/
structure SettlesAlike (s : Machine) : Prop where
  /-- No way to rest is endless. -/
  bounded : ∀ h s', Run s h s' → (∀ l ∈ h, l.thread? = none) → h.length ≤ s.world.workload
  /-- Every start of a way to rest leads there. -/
  settles : ∀ h s', Run s h s' → (∀ l ∈ h, l.thread? = none) →
    ∃ h', Settles s (h ++ h') (s.withWorld s.world.settle)
  /-- All lead to one state, and all consist of the same steps. -/
  alike : ∀ h₁ s₁ h₂ s₂, Settles s h₁ s₁ → Settles s h₂ s₂ → s₁ = s₂ ∧ h₁.Perm h₂

/-- Where no two queues share a clock and work looks at its own queue's trace only, the workers come
to rest in one state. -/
theorem settles_alike (hs : s.Reachable) (hseparate : s.world.Separate) : s.SettlesAlike := by
  refine ⟨fun h s' hrun hworkers => ?_, fun h s' hrun hworkers => ?_,
    fun h₁ s₁ h₂ s₂ hsettles₁ hsettles₂ => hsettles₁.unique hsettles₂ hs hseparate⟩
  · exact Nat.le_trans (Nat.le_add_right _ _) (hrun.length_le_workload hworkers)
  · obtain ⟨h₀, hsettles₀⟩ := s.exists_settles
    obtain ⟨h', hsettles'⟩ := s'.exists_settles
    have hsettles : Settles s (h ++ h') (s'.withWorld s'.world.settle) :=
      ⟨hrun.trans hsettles'.run, fun l hl => (List.mem_append.1 hl).elim (hworkers l)
        (hsettles'.workers l), hsettles'.stuck⟩
    exact ⟨h', (hsettles.unique hsettles₀ hs hseparate).1 ▸ hsettles⟩

/-- A worker that is not there is stuck. -/
theorem stuck_of_lt {w : World} (h : ∀ q, q < w.queues.length → (w.step? q).isNone) (q : QueueRef) :
    w.step? q = none := by
  cases hstep : w.step? q with
  | none => rfl
  | some w' =>
    have hq := h q (World.lt_of_step?_eq_some hstep)
    rw [hstep] at hq
    cases hq

/-! ### Two queues, one of which waits for the other -/

namespace Coupled

/-- Two queues with clocks of their own. The second waits for the work of the first, and then does
work that panics. -/
def coupling : List Turn :=
  [.call 0 (.newQueue { clock := .own (Clock.stepping 10) }),
    .call 0 (.newQueue { clock := .own (Clock.stepping 7) }),
    .call 0 (.enqueueWork 0 [.push 1, .see 0]), .call 0 (.enqueueMarker 1 ⟨.timed, [0]⟩),
    .call 0 (.enqueueWork 1 [.push 2, .panic (.text "stop"), .push 3])]

/-- The first worker is done before the second one begins. -/
def inTurn : List Turn := List.replicate 7 (.worker 0) ++ List.replicate 13 (.worker 1)

/-- The second worker goes on whenever it can. -/
def byTurns : List Turn :=
  [.worker 1, .worker 1, .worker 0, .worker 0, .worker 0, .worker 0, .worker 0, .worker 0,
    .worker 0] ++ List.replicate 11 (.worker 1)

def coupled : Machine := reached coupling (start fun _ => 0)

theorem separate_coupled : coupled.world.Separate := by
  have hqueues : coupled.world.queues.length = 2 := by decide
  have hcommands : coupled.world.commands.length = 3 := by decide
  refine ⟨fun q r hq hr hne => ?_, fun c hc _ q hq => ?_⟩
  · have hall : ∀ q, q < 2 → ∀ r, r < 2 → q ≠ r →
        (coupled.world.queue q).clock ≠ (coupled.world.queue r).clock := by decide
    exact hall q (hqueues ▸ hq) r (hqueues ▸ hr) hne
  · obtain rfl | rfl | rfl : c = 0 ∨ c = 1 ∨ c = 2 := by omega
    · rw [show (coupled.world.command 0).work = [.push 1, .see 0] by decide] at hq
      obtain rfl : q = 0 := by simpa using hq
      decide
    · rw [show (coupled.world.command 1).work = [] by decide] at hq
      cases hq
    · rw [show (coupled.world.command 2).work = [.push 2, .panic (.text "stop"), .push 3] by
        decide] at hq
      simp at hq

end Coupled

open Coupled in
theorem settles_alike_coupled :
    Settles coupled (told inTurn coupled) (reached inTurn coupled) ∧
      Settles coupled (told byTurns coupled) (reached byTurns coupled) ∧
      reached inTurn coupled = reached byTurns coupled ∧
      (reached byTurns coupled).world.times? 2 = some ⟨21, 28⟩ := by
  have hs : coupled.Reachable := ⟨_, _, run_reached (by decide)⟩
  have hsettles₁ : Settles coupled (told inTurn coupled) (reached inTurn coupled) :=
    ⟨run_reached (by decide), by decide, stuck_of_lt (by decide)⟩
  have hsettles₂ : Settles coupled (told byTurns coupled) (reached byTurns coupled) :=
    ⟨run_reached (by decide), by decide, stuck_of_lt (by decide)⟩
  refine ⟨hsettles₁, hsettles₂, ?_, by decide⟩
  exact ((settles_alike hs separate_coupled).alike _ _ _ _ hsettles₁ hsettles₂).1

end Machine

end SyncPoint.Host
