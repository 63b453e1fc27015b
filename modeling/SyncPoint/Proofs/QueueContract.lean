import SyncPoint.Proofs.Machine.Concluding
import SyncPoint.Proofs.Machine.Results
import SyncPoint.Proofs.Machine.Takings

/-!
# What events rely on

Events know of queues only what these answer, and take it that a queue's newest command is the last
that it took, that a command knows its queue for as long as somebody has a handle of it, and that no
two queues have one identifier.  All of that holds of host queues after every run
(`Machine.queue_contract`), where what queues have taken is read off the history.  So an event is
attached to a command exactly if that was handed over to the queue (`HonoursContract.attached`).
-/

namespace SyncPoint.Host.Machine

/-- Queues have taken these commands, in order, and answer as events expect of them. -/
structure HonoursContract (s : Machine) (taken : List Taking) : Prop where
  /-- What a queue has accepted is what it took. -/
  accepted : ∀ q c, c ∈ s.world.accepted q ↔ ∃ kind, taken[c]? = some ⟨q, kind⟩
  /-- The newest command of a queue is the last that it accepted, -/
  newest : ∀ q, s.world.serve (.lastEnqueued q) = s.world.tell (s.world.accepted q).getLast?
  /-- which is the last in the line that its worker goes along: -/
  line : ∀ q, s.world.accepted q =
    s.world.completed q ++ ((s.world.queue q).worker.holding ++ (s.world.queue q).inbox)
  /-- once that one has run, all that was accepted has. -/
  reached_last : ∀ q c, (s.world.queue q).last = some c → ∀ h s', Run s h s' →
    s'.world.status c = .complete → ∀ d ∈ s.world.accepted q, s'.world.status d = .complete
  /-- There is none only as long as the queue has taken nothing. -/
  none_before : ∀ q, (s.world.queue q).last = none ↔ ∀ kind, ⟨q, kind⟩ ∉ taken
  /-- What a queue takes becomes its newest command, -/
  takes : ∀ l s', Step s l s' → ∀ q kind, s.taking? l = some ⟨q, kind⟩ →
    s'.world.accepted q = s.world.accepted q ++ [taken.length] ∧
      (s'.world.queue q).last = some taken.length
  /-- and nothing else does: not what another queue takes, nor what the queue refuses, nor a command
  that is completed. -/
  keeps : ∀ l s', Step s l s' → ∀ q, (∀ kind, s.taking? l ≠ some ⟨q, kind⟩) →
    s'.world.accepted q = s.world.accepted q ∧ (s'.world.queue q).last = (s.world.queue q).last
  /-- Whoever hands over a command is handed out that very command. -/
  handed_out : ∀ command : Command, (s.world.submit command).value =
    if (s.world.queue command.queue).accepting then .ok taken.length else .error .queueShutDown
  /-- A command that a queue took bears the queue's identifier, is visible unless it is a barrier,
  and gives the queue exactly while there is a handle of it. -/
  owned : ∀ c q kind, taken[c]? = some ⟨q, kind⟩ →
    s.world.serve (.ownerId c) = s.world.serve (.queueId q) ∧
      s.world.serve (.userVisible c) = s.world.tell (decide (kind ≠ .barrier)) ∧
      s.world.serve (.owner c) =
        s.world.tell (if 0 < (s.world.queue q).handles then some q else none)
  /-- There are as many handles of a queue as were made and not dropped, -/
  handles : ∀ h s', Run s h s' → ∀ q, q < s.world.queues.length →
    (s'.world.queue q).handles + (h.filterMap Happening.dropped?).count q =
      (s.world.queue q).handles + (h.filterMap Happening.cloned?).count q
  /-- and at least one while a call uses the queue. -/
  in_use : ∀ q, s.InUse q → 0 < (s.world.queue q).handles
  distinct : ∀ q r, q < s.world.queues.length → r < s.world.queues.length →
    s.world.serve (.queueId q) = s.world.serve (.queueId r) → q = r
  /-- An event is attached to a command of a queue exactly if the queue took the command. -/
  attached : ∀ t event q c, s.Idle t → s.Allows (.attachCommand event q c) →
    s.Concludes t (.attachCommand event q c) fun _ result _ =>
      (result = .ok () ↔ ∃ kind, taken[c]? = some ⟨q, kind⟩) ∧
        ∀ failure, result = .error failure → failure =
          .foreignCommand (s.world.queue (s.world.command c).queue).id (s.world.queue q).id

variable {s s' : Machine} {t : ThreadId} {event : Event} {q : QueueRef} {c d : CommandRef}
  {h : History} {process : Nat → UInt64}

/-- All that a queue accepted has run once its newest command has. -/
theorem complete_of_last (hsound : s.Sound) (hlast : (s.world.queue q).last = some c)
    (hrun : Run s h s') (hdone : s'.world.status c = .complete) (hd : d ∈ s.world.accepted q) :
    s'.world.status d = .complete := by
  obtain ⟨hlt, hqueue⟩ := World.mem_accepted.1 hd
  obtain ⟨hc, hcq, hnewest⟩ := hsound.world.captures_last (Nat.le_refl _) hlast
  have hrequires : s.world.Requires c d :=
    World.requires_of_le (hnewest d hlt hqueue) (hqueue.trans hcq.symm)
  exact (hsound.of_run hrun).world.complete_of_requires hdone
    (hsound.world.requires_grows (hsound.grows hrun) hc hrequires)

/-- An event is attached to a command if the command belongs to the queue. -/
theorem result_of_attachCommand (hsound : s.Sound) {result : Except Failure Unit}
    (hreturns : Returns t (.attachCommand event q c) s h result s') :
    result = if c ∈ s.world.accepted q then .ok ()
      else .error (.foreignCommand (s.world.queue (s.world.command c).queue).id
        (s.world.queue q).id) := by
  have hallowed := hreturns.allows.2
  have hq := lt_of_handles (hallowed.queues q List.mem_cons_self)
  have hc := hallowed.commands c List.mem_cons_self
  have hresult := hreturns.ensures hsound (fun _ => True) (fun _ _ _ _ _ => trivial)
    (ensures_addMarker_result (hallowed.events event List.mem_cons_self) fun locked hlocked =>
      ensures_choosePosition_some hsound.world hlocked.grows hc hq)
  rw [hresult]
  by_cases hqueue : (s.world.command c).queue = q
  · rw [if_pos hqueue, if_pos (World.mem_accepted.2 ⟨hc, hqueue⟩)]
    rfl
  · rw [if_neg hqueue, if_neg fun hmem => hqueue (World.mem_accepted.1 hmem).2]
    rfl

/-- After every run, queues answer as events expect, where they have taken what was handed over to
them while they took commands. -/
theorem queue_contract (hrun : Run (start process) h s) :
    s.HonoursContract ((start process).takings h) := by
  have hs : s.Reachable := ⟨process, h, hrun⟩
  have hsound := sound_of_reachable hs
  have hlength : s.world.taken.length = s.world.commands.length := List.length_map ..
  rw [← takings_of_run hrun]
  exact {
    accepted q c := World.mem_accepted_iff
    newest q := congrArg s.world.tell (hsound.world.newest q)
    line := hsound.world.line
    reached_last q c hlast h' s' hrun' hdone d hd := complete_of_last hsound hlast hrun' hdone hd
    none_before q := by
      rw [hsound.world.newest q, List.getLast?_eq_none_iff, List.eq_nil_iff_forall_not_mem]
      constructor
      · intro hnone kind hmem
        obtain ⟨c, hc⟩ := List.getElem?_of_mem hmem
        exact hnone c (World.mem_accepted_iff.2 ⟨kind, hc⟩)
      · intro hnone c hc
        obtain ⟨kind, hkind⟩ := World.mem_accepted_iff.1 hc
        exact hnone kind (List.mem_of_getElem? hkind)
    takes l s' hstep q kind htaking := by
      rw [hlength]
      exact hstep.accepted_of_taken hsound htaking
    keeps l s' hstep q hnone := hsound.accepted_of_not_taken hstep hnone
    handed_out command := by
      rw [hlength]
      cases haccepting : (s.world.queue command.queue).accepting with
      | true => rw [World.value_submit (hsound.world.takes haccepting)]; rfl
      | false => rw [World.submit_of_not_accepting haccepting]; rfl
    owned c q kind hkind := by
      obtain ⟨hc, hqueue⟩ := World.mem_accepted.1 (World.mem_accepted_iff.2 ⟨kind, hkind⟩)
      rw [World.getElem?_taken hc] at hkind
      obtain rfl := congrArg Taking.kind (Option.some.inj hkind)
      subst hqueue
      exact ⟨rfl, rfl, rfl⟩
    handles h' s' hrun' q hq := hrun'.handles_eq hsound hq
    in_use q huse := handles_of_inUse hs huse
    distinct q r hq hr hid := by
      have hid : (s.world.queue q).id = (s.world.queue r).id :=
        congrArg Reply.value (Option.some.inj hid)
      exact hsound.world.eq_of_id_eq (.refl _) hq hr hid
    attached t event q c hidle hallowed := by
      refine concludes hs hidle hallowed ?_
      intro h' result s' hreturns
      rw [result_of_attachCommand hsound hreturns, ← World.mem_accepted_iff]
      by_cases hmem : c ∈ s.world.accepted q
      · simp [hmem]
      · simp only [hmem, if_false, iff_false]
        refine ⟨nofun, ?_⟩
        rintro failure ⟨⟩
        rfl }

/-- Work on two queues, the first of which is used through two handles and refuses a marker in the
end, since it is shut down. -/
def shared : List Turn :=
  [.call 0 (.newQueue {}), .call 0 (.newQueue {}), .call 0 (.cloneQueue 0),
    .call 0 (.enqueueWork 0 [.push 1]), .call 0 (.enqueueWork 1 [.push 2]), .call 0 (.dropQueue 0),
    .call 0 (.enqueueMarker 0 ⟨.timed, [1]⟩), .call 0 (.shutdown 0),
    .call 0 (.enqueueMarker 0 ⟨.timed, []⟩)]

theorem queue_contract_shared :
    ∃ s, Run (start fun _ => 0) (told shared (start fun _ => 0)) s ∧
      s.HonoursContract ((start fun _ => 0).takings (told shared (start fun _ => 0))) := by
  have hrun : Run (start fun _ => 0) (told shared _) (reached shared _) := run_reached (by decide)
  exact ⟨_, hrun, queue_contract hrun⟩

end SyncPoint.Host.Machine
