import SyncPoint.Proofs.Machine.Awaiting
import SyncPoint.Proofs.Machine.Ending

/-!
# What becomes of a call

What a call returns is one half of what is to be said of it, and that it returns is the other.  A
call goes on unless it waits for a lock that another thread holds, or, if it is of a kind that waits,
for a command that has not run; where no gate is closed it has returned by the time the machine is at
rest.  `Machine.Concludes` says both, and the second half holds of every call (`Machine.concludes`).
-/

namespace SyncPoint.Host.Machine

variable {s s' : Machine} {t : ThreadId} {call : Call} {h : History}

/-- What becomes of a call that a thread makes. -/
structure Concludes (s : Machine) (t : ThreadId) (call : Call)
    (expected : History → call.Result → Machine → Prop) : Prop where
  /-- Whatever else happens meanwhile, what the call returns is as expected. -/
  returned : ∀ h result s', Returns t call s h result s' → expected h result s'
  /-- Until the call has its result, it goes on, or waits for a lock that another thread holds, or for
  a command that has not run. -/
  proceeds : ∀ h s', Run (s.enter t call) h s' → (∀ l ∈ h, ∀ call', l ≠ .enter t call') →
    (∃ result queues, s'.tasks t = some ⟨call, .done result, queues⟩) ∨
      (∃ request s'', Step s' (.ask t request) s'') ∨ (∃ u, s'.WaitsFor t u) ∨
        call.mayWait = true ∧
          ∃ c, s'.asks? t = some (.engine (.await c)) ∧ s'.world.status c = .pending
  /-- Without new calls the machine comes to rest, -/
  settles : Acc GoesOn (s.enter t call)
  /-- and by then the call has returned, if no gate is closed. -/
  ends : (s.enter t call).world.Open → ∀ h s', Run (s.enter t call) h s' →
    (∀ l ∈ h, ∀ u call', l ≠ .enter u call') → (∀ s'', ¬ GoesOn s'' s') →
      ∃ before after result x queues, h = before ++ after ∧
        Returns t call s (.enter t call :: before) result x ∧
          s'.tasks t = some ⟨call, .done result, queues⟩

/-- A thread that makes no other call stays in the one that it is in. -/
theorem Run.task_of_task {rest : Program call.Result} {queues : List QueueRef}
    (hrun : Run s h s') (hsame : ∀ l ∈ h, ∀ call', l ≠ .enter t call')
    (htask : s.tasks t = some ⟨call, rest, queues⟩) :
    ∃ rest' queues', s'.tasks t = some ⟨call, rest', queues'⟩ := by
  induction hrun with
  | refl => exact ⟨rest, queues, htask⟩
  | snoc _ hstep ih =>
    obtain ⟨rest', queues', htask'⟩ := ih fun l hl => hsame l (List.mem_append_left _ hl)
    have hlast := hsame _ (List.mem_append_right _ List.mem_cons_self)
    exact (hstep.task_of_task hlast htask').1

/-- What holds up a thread is a lock, or a command if its call waits for commands. -/
theorem goes_on_or_waits (hs : s.Reachable) {request : Request}
    {next : request.Answer → Program call.Result} {queues : List QueueRef}
    (htask : s.tasks t = some ⟨call, .ask request next, queues⟩) :
    (∃ request s', Step s (.ask t request) s') ∨ (∃ u, s.WaitsFor t u) ∨
      call.mayWait = true ∧
        ∃ c, s.asks? t = some (.engine (.await c)) ∧ s.world.status c = .pending := by
  cases hserve : System.serve stillEngine t request s.system with
  | some reply => exact .inl ⟨request, _, .ask htask hserve⟩
  | none =>
    rcases waits_of_serve_eq_none hserve with ⟨event, u, rfl, hholder⟩ | ⟨c, rfl, hpending⟩
    · exact .inr (.inl ⟨u, event, asks?_of_task htask, hholder⟩)
    · refine .inr (.inr ⟨?_, c, asks?_of_task htask, ?_⟩)
      · by_contra hcall
        cases awaited?_of_prompt hs htask (Bool.eq_false_iff.2 hcall)
      · cases hstatus : s.world.status c with
        | pending => rfl
        | complete => exact absurd hstatus hpending

/-- It is enough to look at what the call returns. -/
theorem concludes {expected : History → call.Result → Machine → Prop} (hs : s.Reachable)
    (hidle : s.Idle t) (hallowed : s.Allows call)
    (hreturned : ∀ h result s', Returns t call s h result s' → expected h result s') :
    s.Concludes t call expected := by
  have hentered := hs.run (Step.enter hidle hallowed).run
  refine ⟨hreturned, ?_, acc_goesOn hentered, ?_⟩
  · intro h s' hrun hsame
    obtain ⟨rest, queues, htask⟩ := hrun.task_of_task hsame (tasks_withTask_self ..)
    cases rest with
    | done result => exact .inl ⟨result, queues, htask⟩
    | ask request next => exact .inr (goes_on_or_waits (hentered.run hrun) htask)
  · intro hopen h s' hrun hcall hrest
    exact returns_of_rest hs hidle hallowed hopen hrun hcall hrest

end SyncPoint.Host.Machine
