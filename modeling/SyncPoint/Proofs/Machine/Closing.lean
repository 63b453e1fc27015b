import SyncPoint.Proofs.Machine.Ending
import SyncPoint.Proofs.Machine.Handles
import SyncPoint.Proofs.Machine.Takings

/-!
# Queues that take nothing any more

A queue that was shut down stays so, and one whose last handle is gone does not come back.  Such a
queue never takes another command (`Machine.accepted_of_closed`): a queue that was shut down refuses
it, and nobody names a queue that is gone.
-/

namespace SyncPoint.Host

/-- The queue was made, and was shut down or has no handle left. -/
def World.Closed (w : World) (q : QueueRef) : Prop :=
  q < w.queues.length ∧ ((w.queue q).accepting = false ∨ (w.queue q).handles = 0)

namespace Machine

variable {s s' : Machine} {t : ThreadId} {l : Happening} {h : History} {q : QueueRef}

/-! ## For good -/

section Step

variable (hstep : Step s l s') (hq : q < s.world.queues.length)
include hstep hq

theorem Step.not_accepting (h : (s.world.queue q).accepting = false) :
    (s'.world.queue q).accepting = false := by
  -- only the beginning of a call changes the settings of a queue
  by_cases hcall : ∃ t call, l = .enter t call
  · obtain ⟨t, call, rfl⟩ := hcall
    cases hstep with
    | enter =>
      have hcalled := Call.called_enter s.system call hq
      cases haccepting : ((s.enter t call).world.queue q).accepting with
      | false => rfl
      | true =>
        have hbefore := (hcalled.accepting haccepting).1
        exact absurd (hbefore.symm.trans h) nofun
  · rw [(hstep.same_settings (fun t call heq => hcall ⟨t, call, heq⟩) q).2.1]
    exact h

theorem Step.gone (h : (s.world.queue q).handles = 0) : (s'.world.queue q).handles = 0 := by
  by_cases hcall : ∃ t call, l = .enter t call
  · obtain ⟨t, call, rfl⟩ := hcall
    cases hstep with
    | enter _ hallowed =>
      have hcalled := Call.called_enter s.system call hq
      refine Nat.eq_zero_of_le_zero (Nat.le_trans (hcalled.handles_le ?_) (Nat.le_of_eq h))
      rintro rfl
      exact absurd (hallowed.queues q List.mem_cons_self) (by rw [h]; exact Nat.lt_irrefl 0)
  · rw [(hstep.same_settings (fun t call heq => hcall ⟨t, call, heq⟩) q).1]
    exact h

end Step

section Run

variable (hsound : s.Sound) (hrun : Run s h s') (hq : q < s.world.queues.length)
include hsound hrun hq

theorem Run.not_accepting (h : (s.world.queue q).accepting = false) :
    (s'.world.queue q).accepting = false := by
  induction hrun with
  | refl => exact h
  | snoc hbefore hstep ih =>
    exact hstep.not_accepting (Nat.lt_of_lt_of_le hq (hsound.grows hbefore).queues_le) ih

theorem Run.gone (h : (s.world.queue q).handles = 0) : (s'.world.queue q).handles = 0 := by
  induction hrun with
  | refl => exact h
  | snoc hbefore hstep ih =>
    exact hstep.gone (Nat.lt_of_lt_of_le hq (hsound.grows hbefore).queues_le) ih

end Run

theorem Run.closed (hrun : Run s h s') (hsound : s.Sound) (hclosed : s.world.Closed q) :
    s'.world.Closed q :=
  ⟨Nat.lt_of_lt_of_le hclosed.1 (hsound.grows hrun).queues_le,
    hclosed.2.imp (hrun.not_accepting hsound hclosed.1) (hrun.gone hsound hclosed.1)⟩

/-- A queue is shut down by any call for it. -/
theorem Run.closed_of_shutdown (hrun : Run s h s') (hsound : s.Sound)
    (hcall : .enter t (.shutdown q) ∈ h) : s'.world.Closed q := by
  obtain ⟨before, after, rfl⟩ := List.append_of_mem hcall
  obtain ⟨x, hbefore, hrest⟩ := hrun.split
  obtain ⟨y, hstep, hafter⟩ := hrest.uncons
  have hx := hsound.of_run hbefore
  refine hafter.closed (hx.of_step hstep) ?_
  cases hstep with
  | enter _ hallowed =>
    have hq := lt_of_handles (hallowed.queues q List.mem_cons_self)
    have hcalled := Call.called_enter x.system (.shutdown q) hq
    refine ⟨Nat.lt_of_lt_of_le hq (hx.grows_of_step (.enter ‹_› hallowed)).queues_le, .inl ?_⟩
    cases haccepting : ((x.enter t (.shutdown q)).world.queue q).accepting with
    | false => rfl
    | true => exact absurd rfl (hcalled.accepting haccepting).2

/-! ## Nothing is taken -/

/-- Commands are handed over through a handle. -/
theorem handles_of_handover? (hs : s.Reachable) (hstep : Step s l s') {kind : CommandKind}
    (hl : l.handover? = some ⟨q, kind⟩) : 0 < (s.world.queue q).handles := by
  unfold Happening.handover? at hl
  split at hl
  case h_4 => cases hl; exact handles_of_marker hs hstep
  case h_5 => cases hl
  all_goals
    cases hl
    cases hstep with
    | enter _ hallowed => exact hallowed.queues q List.mem_cons_self

theorem not_taken_of_closed (hs : s.Reachable) (hclosed : s.world.Closed q) (hstep : Step s l s')
    (kind : CommandKind) : s.taking? l ≠ some ⟨q, kind⟩ := by
  intro htaking
  obtain ⟨hhandover, haccepting⟩ := Option.filter_eq_some_iff.1 htaking
  rcases hclosed.2 with hrefuses | hgone
  · rw [hrefuses] at haccepting
    cases haccepting
  · exact absurd (handles_of_handover? hs hstep hhandover) (by rw [hgone]; exact Nat.lt_irrefl 0)

/-- A queue that was shut down or is gone stays with the commands that it has accepted. -/
theorem accepted_of_closed (hs : s.Reachable) (hclosed : s.world.Closed q) (hrun : Run s h s') :
    s'.world.accepted q = s.world.accepted q ∧
      (s'.world.queue q).last = (s.world.queue q).last := by
  induction hrun with
  | refl => exact ⟨rfl, rfl⟩
  | @snoc h l x y hbefore hstep ih =>
    have hx := hs.run hbefore
    have hkept := (sound_of_reachable hx).accepted_of_not_taken hstep
      (not_taken_of_closed hx (hbefore.closed (sound_of_reachable hs) hclosed) hstep)
    exact ⟨hkept.1.trans ih.1, hkept.2.trans ih.2⟩

theorem canAdvance_of_closed (hclosed : s.world.Closed q) : s.world.canAdvance q = false := by
  unfold World.canAdvance
  rcases hclosed.2 with hrefuses | hgone
  · rw [hrefuses, Bool.and_false]
  · rw [hgone]
    rfl

end Machine

end SyncPoint.Host
