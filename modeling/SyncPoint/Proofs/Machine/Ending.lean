import SyncPoint.Proofs.Machine.Replay
import SyncPoint.Proofs.Machine.Termination

/-!
# Calls that come to an end

A thread that is in a call stays in it until it has a result (`Machine.Run.performs_of_idle`), so
where no gate is closed a call that is made has returned by the time the machine is at rest
(`Machine.returns_of_rest`).
-/

namespace SyncPoint.Host

namespace World

/-- The queue exists and takes commands. -/
def Serving (w : World) (q : QueueRef) : Prop :=
  0 < (w.queue q).handles ∧ (w.queue q).accepting = true

theorem Serving.of_settings {w w' : World} {q : QueueRef} (hserving : w.Serving q)
    (h : w.SameSettings w') : w'.Serving q := by
  obtain ⟨hhandles, haccepting, -⟩ := h q
  unfold Serving
  rw [hhandles, haccepting]
  exact hserving

end World

namespace Machine

variable {s s' : Machine} {t : ThreadId} {l : Happening} {h : History} {call : Call}

/-- Without a call of its own a thread stays in the call it is in. -/
theorem Step.task_of_task {rest : Program call.Result} {queues : List QueueRef}
    (hstep : Step s l s') (hcall : ∀ call', l ≠ .enter t call')
    (htask : s.tasks t = some ⟨call, rest, queues⟩) :
    (∃ rest' queues', s'.tasks t = some ⟨call, rest', queues'⟩) ∧
      ∀ value, rest = .done value → s'.tasks t = s.tasks t := by
  have hsame : s'.tasks t = s.tasks t → (∃ rest' queues', s'.tasks t =
      some ⟨call, rest', queues'⟩) ∧ ∀ value, rest = .done value → s'.tasks t = s.tasks t := by
    intro hsame
    exact ⟨⟨rest, queues, hsame.trans htask⟩, fun _ _ => hsame⟩
  cases hstep with
  | worker => exact hsame rfl
  | @enter u call' =>
    have hu : t ≠ u := by
      rintro rfl
      exact hcall call' rfl
    exact hsame (tasks_withTask_of_ne hu ..)
  | @ask u call' request next queues' answer system htask' =>
    by_cases hu : t = u
    · subst u
      rw [htask] at htask'
      cases htask'
      exact ⟨⟨_, _, tasks_withTask_self ..⟩, nofun⟩
    · exact hsame (tasks_withTask_of_ne hu ..)

theorem Run.task_of_done {value : call.Result} {queues : List QueueRef} (hrun : Run s h s')
    (hcall : ∀ l ∈ h, ∀ call', l ≠ .enter t call')
    (htask : s.tasks t = some ⟨call, .done value, queues⟩) :
    s'.tasks t = some ⟨call, .done value, queues⟩ := by
  induction hrun with
  | refl => exact htask
  | snoc _ hstep ih =>
    have hbefore := ih fun l hl => hcall l (List.mem_append_left _ hl)
    have hlast := hcall _ (List.mem_append_right _ List.mem_cons_self)
    exact ((hstep.task_of_task hlast hbefore).2 value rfl).trans hbefore

/-- A thread that was in a call and is in none has got a result for it. -/
theorem Run.performs_of_idle {rest : Program call.Result} {queues : List QueueRef}
    (hrun : Run s h s') (hcall : ∀ l ∈ h, ∀ call', l ≠ .enter t call')
    (htask : s.tasks t = some ⟨call, rest, queues⟩) (hidle : s'.Idle t) :
    ∃ before after value x queues', h = before ++ after ∧ Performs t call s before value x ∧
      s'.tasks t = some ⟨call, .done value, queues'⟩ := by
  induction h generalizing s rest queues with
  | nil =>
    obtain rfl := hrun.eq_of_nil
    cases rest with
    | done value => exact ⟨[], [], value, _, queues, rfl, .done htask, htask⟩
    | ask request next => exact absurd ⟨request, next, rfl⟩ (hidle _ htask)
  | cons l h ih =>
    cases rest with
    | done value =>
      exact ⟨[], l :: h, value, s, queues, rfl, .done htask, hrun.task_of_done hcall htask⟩
    | ask request next =>
      obtain ⟨y, hstep, hrest⟩ := hrun.uncons
      obtain ⟨⟨rest', queues', htask'⟩, -⟩ :=
        hstep.task_of_task (hcall l List.mem_cons_self) htask
      obtain ⟨before, after, value, x, queues'', rfl, hperforms, hdone⟩ :=
        ih hrest (fun l hl => hcall l (List.mem_cons_of_mem _ hl)) htask'
      exact ⟨l :: before, after, value, x, queues'', rfl,
        .step ⟨_, htask, rfl, request, next, rfl⟩ hstep hperforms, hdone⟩

/-- A call that is made where no gate is closed has returned by the time the machine is at rest. -/
theorem returns_of_rest (hs : s.Reachable) (hidle : s.Idle t) (hallowed : s.Allows call)
    (hopen : (s.enter t call).world.Open) (hrun : Run (s.enter t call) h s')
    (hcall : ∀ l ∈ h, ∀ u call', l ≠ .enter u call') (hrest : ∀ s'', ¬ GoesOn s'' s') :
    ∃ before after value x queues, h = before ++ after ∧
      Returns t call s (.enter t call :: before) value x ∧
        s'.tasks t = some ⟨call, .done value, queues⟩ := by
  have hfirst : Step s (.enter t call) (s.enter t call) := .enter hidle hallowed
  have hsound := sound_of_reachable ((hs.run hfirst.run).run hrun)
  have hidle' := (hsound.done_of_rest hrest (hrun.keeps_open hcall hopen)).2 t
  obtain ⟨before, after, value, x, queues, hsplit, hperforms, hdone⟩ :=
    hrun.performs_of_idle (fun l hl => hcall l hl t) (tasks_withTask_self ..) hidle'
  exact ⟨before, after, value, x, queues, hsplit, ⟨before, rfl, hfirst, hperforms⟩, hdone⟩

end Machine

end SyncPoint.Host
