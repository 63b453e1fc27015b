import Mathlib.Data.List.Induction
import SyncPoint.Proofs.Machine.Turn

/-!
# A history tells the run

A step is told with all that it depends on but the state it is made in, so two runs from one state
with one history lead to one state (`Machine.Run.unique`), and a run can be taken apart wherever its
history can (`Machine.Run.split`).
-/

namespace SyncPoint.Host.Machine

variable {s s₁ s₂ : Machine} {l : Happening} {h h' : History}

theorem Step.unique (h₁ : Step s l s₁) (h₂ : Step s l s₂) : s₁ = s₂ := by
  cases h₁ with
  | worker hstep =>
    cases h₂ with
    | worker hstep' =>
      rw [hstep] at hstep'
      cases hstep'
      rfl
  | enter =>
    cases h₂ with
    | enter => rfl
  | ask htask hserve =>
    cases h₂ with
    | ask htask' hserve' =>
      rw [htask] at htask'
      cases htask'
      rw [hserve] at hserve'
      cases hserve'
      rfl

theorem Run.unsnoc (hrun : Run s (h ++ [l]) s₁) : ∃ x, Run s h x ∧ Step x l s₁ := by
  obtain ⟨h', hh'⟩ : ∃ h', h' = h ++ [l] := ⟨_, rfl⟩
  rw [← hh'] at hrun
  cases hrun with
  | refl => simp at hh'
  | snoc hrun hstep =>
    obtain ⟨rfl, hl⟩ := List.append_inj' hh' rfl
    cases hl
    exact ⟨_, hrun, hstep⟩

theorem Run.eq_of_nil (hrun : Run s [] s₁) : s₁ = s := by
  obtain ⟨h, hh⟩ : ∃ h, h = ([] : History) := ⟨_, rfl⟩
  rw [← hh] at hrun
  cases hrun with
  | refl => rfl
  | snoc => simp at hh

theorem Run.split (hrun : Run s (h ++ h') s₁) : ∃ x, Run s h x ∧ Run x h' s₁ := by
  induction h' using List.reverseRecOn generalizing s₁ with
  | nil => exact ⟨s₁, by simpa using hrun, .refl⟩
  | append_singleton rest l ih =>
    rw [← List.append_assoc] at hrun
    obtain ⟨x, hbefore, hstep⟩ := hrun.unsnoc
    obtain ⟨y, hrun₁, hrun₂⟩ := ih hbefore
    exact ⟨y, hrun₁, hrun₂.snoc hstep⟩

theorem Run.uncons (hrun : Run s (l :: h) s₁) : ∃ x, Step s l x ∧ Run x h s₁ := by
  obtain ⟨x, hfirst, hrest⟩ := Run.split (h := [l]) hrun
  obtain ⟨y, hnone, hstep⟩ := Run.unsnoc (h := []) hfirst
  exact ⟨x, hnone.eq_of_nil ▸ hstep, hrest⟩

theorem Run.unique (h₁ : Run s h s₁) (h₂ : Run s h s₂) : s₁ = s₂ := by
  induction h₁ generalizing s₂ with
  | refl => exact h₂.eq_of_nil.symm
  | snoc _ hstep ih =>
    obtain ⟨x, hbefore, hstep'⟩ := h₂.unsnoc
    obtain rfl := ih hbefore
    exact hstep.unique hstep'

/-- Whatever machines get to goes on to what they get to. -/
theorem Reachable.run (hs : s.Reachable) (hrun : Run s h s₁) : s₁.Reachable := by
  obtain ⟨process, h₀, hrun₀⟩ := hs
  exact ⟨process, _, hrun₀.trans hrun⟩

end SyncPoint.Host.Machine
