import SyncPoint.Proofs.Host.Footprint
import SyncPoint.Proofs.Host.Front
import SyncPoint.Proofs.Machine.Sound

/-!
# Workers that are gone

Where threads may hand over any work whatever (`Machine.FreeRun`), a worker can come to its end: its
work panics with something that panics in its turn when it is dropped.  Nothing brings the worker
back, and no other one takes over the commands that it leaves, so these never complete
(`Machine.FreeRun.abandoned`).
-/

namespace SyncPoint.Host

namespace World

variable {w w' : World} {q r : QueueRef} {c : CommandRef}

/-- The queue's worker is gone, and the command is one that no other worker has or will receive. -/
structure Abandoned (w : World) (q : QueueRef) (c : CommandRef) : Prop where
  gone : (w.queue q).alive = false
  exist : c < w.commands.length
  pending : w.status c = .pending
  left : ∀ r, c ∈ (w.queue r).worker.holding ++ (w.queue r).inbox → r = q

/-- A worker comes by its commands in no other way than from its queue. -/
theorem Works.held_subset (h : w.Works q w') : (w'.queue q).worker.holding ++ (w'.queue q).inbox ⊆
    (w.queue q).worker.holding ++ (w.queue q).inbox := by
  have hq := h.lt
  cases h with
  | receive hplace hinbox =>
    rw [queue_setQueue_self _ hq, hplace, hinbox]
    exact List.Subset.refl _
  | enter hplace | pass hplace =>
    rw [setWorker, queue_setQueue_self _ hq, hplace]
    exact List.Subset.refl _
  | @act c start action rest hplace =>
    rw [queue_setQueue_self _ hq, hplace]
    cases action <;> exact List.Subset.refl _
  | start hplace | stop hplace =>
    rw [setWorker, queue_setQueue_self _ (by simpa using hq), queue_stamp, hplace]
    exact List.Subset.refl _
  | complete hplace =>
    rw [setWorker, queue_setQueue_self _ (by simpa using hq)]
    exact List.subset_append_right _ _

namespace Abandoned

theorem setQueue (h : w.Abandoned q c) (r : QueueRef) {queue : Queue}
    (halive : queue.alive = (w.queue r).alive) (hworker : queue.worker = (w.queue r).worker)
    (hinbox : queue.inbox = (w.queue r).inbox) : (w.setQueue r queue).Abandoned q c := by
  refine ⟨?_, h.exist, h.pending, fun r' hr' => h.left r' ?_⟩
  · rcases w.queue_setQueue_cases r queue q with hsame | ⟨rfl, hsame⟩ <;> rw [hsame]
    · exact h.gone
    · exact halive.trans h.gone
  · rcases w.queue_setQueue_cases r queue r' with hsame | ⟨rfl, hsame⟩ <;> rw [hsame] at hr'
    · exact hr'
    · rwa [hworker, hinbox] at hr'

/-- A queue whose worker is gone takes no command, and any other one takes a new command. -/
theorem submit (h : w.Abandoned q c) (command : Command) :
    (w.submit command).state.Abandoned q c := by
  cases htakes : w.takes command.queue with
  | false =>
    rw [state_of_not_takes htakes]
    exact h
  | true =>
    have hne : q ≠ command.queue := by
      rintro rfl
      have halive := (Bool.and_eq_true_iff.1 htakes).2
      rw [h.gone] at halive
      cases halive
    have hc : c ≠ w.commands.length := Nat.ne_of_lt h.exist
    refine ⟨?_, ?_, ?_, fun r hr => h.left r ?_⟩
    · rw [queue_submit_of_ne htakes hne]
      exact h.gone
    · rw [commands_submit htakes, List.length_append]
      exact Nat.lt_add_right _ h.exist
    · rw [status, command_submit_of_ne htakes hc]
      exact h.pending
    · by_cases hr' : r = command.queue
      · subst r
        rw [queue_submit_self htakes] at hr
        simpa [hc] using hr
      · rwa [queue_submit_of_ne htakes hr'] at hr

theorem of_called (h : w.Abandoned q c) (hcalled : w.Called w') : w'.Abandoned q c := by
  cases hcalled with
  | addQueue config =>
    have hqueue : ∀ r, (w.addQueue config).2.queue r = w.queue r ∨
        ((w.addQueue config).2.queue r).worker.holding ++
          ((w.addQueue config).2.queue r).inbox = [] := by
      intro r
      rcases Nat.lt_trichotomy r w.queues.length with hr | rfl | hr
      · exact .inl (w.queue_addQueue_of_lt config hr)
      · rw [queue_addQueue_self]
        exact .inr rfl
      · rw [queue_of_le _ (by rw [length_queues_addQueue]; exact hr)]
        exact .inr rfl
    have hq : q < w.queues.length := by
      refine Nat.lt_of_not_le fun hle => ?_
      have hgone := h.gone
      rw [w.queue_of_le hle] at hgone
      cases hgone
    refine ⟨?_, ?_, ?_, fun r hr => ?_⟩
    · rw [w.queue_addQueue_of_lt config hq]
      exact h.gone
    · rw [commands_addQueue]
      exact h.exist
    · rw [status, command, commands_addQueue]
      exact h.pending
    · rcases hqueue r with hsame | hnone
      · exact h.left r (hsame ▸ hr)
      · rw [hnone] at hr
        cases hr
  | cloneHandle r | dropHandle r | setPaused r _ | shutdown r => exact h.setQueue r rfl rfl rfl
  | submit command => exact h.submit command

/-- What a worker does that is there. -/
theorem of_works (h : w.Abandoned q c) (hworks : w.Works r w') (hne : q ≠ r) :
    w'.Abandoned q c := by
  refine ⟨?_, ?_, ?_, fun r' hr' => h.left r' ?_⟩
  · rw [hworks.queue_of_ne hne]
    exact h.gone
  · rw [hworks.lengths.2]
    exact h.exist
  · cases hstatus : w'.status c with
    | pending => rfl
    | complete =>
      obtain ⟨times, hplace, -⟩ := hworks.completes h.pending hstatus
      exact absurd (h.left r (by simp [hplace, Worker.holding])).symm hne
  · by_cases hr : r' = r
    · subst r'
      exact hworks.held_subset hr'
    · rwa [hworks.queue_of_ne hr] at hr'

theorem of_step? (h : w.Abandoned q c) (hstep : w.step? r = some w') : w'.Abandoned q c := by
  refine h.of_works (works_of_step? hstep) ?_
  rintro rfl
  have halive := (step?_eq_some_iff.1 hstep).1
  rw [h.gone] at halive
  cases halive

end Abandoned

end World

namespace Machine

variable {s s' : Machine} {h : History} {q : QueueRef} {c : CommandRef}

/-- A run in which threads may hand over any work. -/
inductive FreeRun (s : Machine) : History → Machine → Prop
  | refl : FreeRun s [] s
  | step {h : History} {l : Happening} {s' s'' : Machine} (hrun : FreeRun s h s')
      (hstep : Step s' l s'') : FreeRun s (h ++ [l]) s''
  | handOver {h : History} {s' : Machine} {t : ThreadId} {q : QueueRef} (work : List Action)
      (hrun : FreeRun s h s') (hidle : s'.Idle t) (hqueue : 0 < (s'.world.queue q).handles) :
      FreeRun s (h ++ [.enter t (.enqueueWork q work)]) (s'.enter t (.enqueueWork q work))

theorem FreeRun.of_run (hrun : Run s h s') : FreeRun s h s' := by
  induction hrun with
  | refl => exact .refl
  | snoc _ hstep ih => exact ih.step hstep

theorem FreeRun.trans {h' : History} {s'' : Machine} (hrun : FreeRun s h s')
    (hrun' : FreeRun s' h' s'') : FreeRun s (h ++ h') s'' := by
  induction hrun' with
  | refl => rwa [List.append_nil]
  | step _ hstep ih =>
    rw [← List.append_assoc]
    exact ih.step hstep
  | handOver work _ hidle hqueue ih =>
    rw [← List.append_assoc]
    exact ih.handOver work hidle hqueue

theorem Step.abandoned {l : Happening} (hstep : Step s l s') (habandoned : s.world.Abandoned q c) :
    s'.world.Abandoned q c := by
  cases hstep with
  | worker hstep => exact habandoned.of_step? hstep
  | @enter t call _ hallowed =>
    rcases Call.world_enter hallowed with hsame | hcalled
    · show (call.enter s.system).2.engine.Abandoned q c
      rw [hsame]
      exact habandoned
    · exact habandoned.of_called hcalled
  | ask htask hserve =>
    cases serves_of_serve hserve with
    | @engine request reply hreply =>
      rcases World.state_of_serve hreply with hsame | ⟨r, marker, -, hmarker⟩
      · exact hsame.symm ▸ habandoned
      · exact hmarker.symm ▸ habandoned.submit _
    | _ => exact habandoned

/-- A command that was left by a worker that is gone never completes. -/
theorem FreeRun.abandoned (hrun : FreeRun s h s') (habandoned : s.world.Abandoned q c) :
    s'.world.Abandoned q c := by
  induction hrun with
  | refl => exact habandoned
  | step _ hstep ih => exact hstep.abandoned ih
  | handOver work _ _ _ ih => exact ih.submit _

end Machine

end SyncPoint.Host
