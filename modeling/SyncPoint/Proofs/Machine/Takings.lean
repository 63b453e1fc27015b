import SyncPoint.Proofs.Host.Footprint
import SyncPoint.Proofs.Machine.Exchanges

/-!
# What queues take

Commands reach a queue at the beginning of a call or with a request of a thread, and the queue takes
them if it takes commands at all (`Machine.taking?`).  A history thus tells all the commands of the
world with their queues and kinds, in order (`Machine.takings_of_run`), and a queue's newest command
is the last that it took (`Machine.Sound.accepted_of_taken`).
-/

namespace SyncPoint.Host

/-- A command as it is handed over: for which queue, and what it represents there. -/
structure Taking where
  queue : QueueRef
  kind : CommandKind
  deriving DecidableEq, Repr

def Command.taking (command : Command) : Taking := ⟨command.queue, command.kind⟩

/-- What a step hands over. -/
def Happening.handover? : Happening → Option Taking
  | .enter _ (.enqueueWork q _) => some ⟨q, .work⟩
  | .enter _ (.enqueueMarker q _) => some ⟨q, .marker⟩
  | .enter _ (.finish q) => some ⟨q, .barrier⟩
  | .ask _ (.engine (.enqueueMarker q _)) => some ⟨q, .marker⟩
  | _ => none

/-- The commands of a world as they were handed over. -/
def World.taken (w : World) : List Taking := w.commands.map Command.taking

theorem World.getElem?_taken {w : World} {c : CommandRef} (hc : c < w.commands.length) :
    w.taken[c]? = some (w.command c).taking := by
  simp [taken, command, hc]

theorem World.taken_of_grows {w w' : World} (h : w.Grows w')
    (hlength : w'.commands.length = w.commands.length) : w'.taken = w.taken := by
  apply List.ext_getElem?
  intro c
  rcases Nat.lt_or_ge c w.commands.length with hc | hc
  · rw [getElem?_taken hc, getElem?_taken (hlength ▸ hc), h.command c hc]
    rfl
  · rw [List.getElem?_eq_none (by simpa [taken, hlength] using hc),
      List.getElem?_eq_none (by simpa [taken] using hc)]

theorem World.accepted_of_grows {w w' : World} (h : w.Grows w')
    (hlength : w'.commands.length = w.commands.length) : w'.accepted = w.accepted := by
  refine accepted_congr hlength fun c => ?_
  rcases Nat.lt_or_ge c w.commands.length with hc | hc
  · exact h.queue_command hc
  · rw [command_of_le _ hc, command_of_le _ (hlength ▸ hc)]

/-- The commands of a queue are those that were handed over to it. -/
theorem World.mem_accepted_iff {w : World} {q : QueueRef} {c : CommandRef} :
    c ∈ w.accepted q ↔ ∃ kind, w.taken[c]? = some ⟨q, kind⟩ := by
  rw [mem_accepted]
  constructor
  · rintro ⟨hc, rfl⟩
    exact ⟨_, getElem?_taken hc⟩
  · rintro ⟨kind, hkind⟩
    have hc : c < w.commands.length := by
      simpa [taken] using (List.getElem?_eq_some_iff.1 hkind).1
    rw [getElem?_taken hc] at hkind
    exact ⟨hc, congrArg Taking.queue (Option.some.inj hkind)⟩

namespace Machine

/-- What a queue takes in a step: what is handed over to it, if it takes commands. -/
def taking? (s : Machine) (l : Happening) : Option Taking :=
  l.handover?.filter fun taking => (s.world.queue taking.queue).accepting

/-- What queues take in these steps. -/
def takings (s : Machine) : History → List Taking
  | [] => []
  | l :: h => (s.taking? l).toList ++ (s.next l).takings h

variable {s s' : Machine} {l : Happening} {h : History} {q : QueueRef}

/-- All that a step can do to the commands of the world. -/
inductive Takes (s : Machine) (l : Happening) (s' : Machine) : Prop
  | nothing (hnone : s.taking? l = none)
      (hlength : s'.world.commands.length = s.world.commands.length)
  | command (command : Command) (htaking : s.taking? l = some command.taking)
      (htakes : s.world.takes command.queue = true)
      (hworld : s'.world = (s.world.submit command).state)

/-- A step that hands over a command adds it, unless the queue takes no commands. -/
theorem takes_of_submit {command : Command} (hsound : s.Sound)
    (hhandover : l.handover? = some command.taking)
    (hworld : s'.world = (s.world.submit command).state) : Takes s l s' := by
  cases haccepting : (s.world.queue command.queue).accepting with
  | true =>
    refine .command command ?_ (hsound.world.takes haccepting) hworld
    rw [taking?, hhandover]
    exact Option.filter_some_pos haccepting
  | false =>
    refine .nothing ?_ ?_
    · rw [taking?, hhandover]
      exact Option.filter_some_neg (by simp [Command.taking, haccepting])
    · rw [hworld, World.submit_of_not_accepting haccepting]

theorem Step.takes (hsound : s.Sound) (hstep : Step s l s') : Takes s l s' := by
  cases hstep with
  | worker hstep => exact .nothing rfl (World.works_of_step? hstep).lengths.2
  | @enter t call =>
    cases call with
    | enqueueWork q work => exact takes_of_submit hsound rfl rfl
    | enqueueMarker q request => exact takes_of_submit hsound rfl rfl
    | finish q => exact takes_of_submit hsound rfl rfl
    | newQueue config =>
      exact .nothing rfl (congrArg List.length (s.world.commands_addQueue config))
    | _ => exact .nothing rfl rfl
  | @ask t call request next queues answer system htask hserve =>
    cases serves_of_serve hserve with
    | @engine request reply hreply =>
      rcases World.state_of_serve hreply with hsame | ⟨q, marker, rfl, hmarker⟩
      · cases request with
        | enqueueMarker q marker =>
          cases hreply
          exact takes_of_submit hsound rfl rfl
        | _ => exact .nothing rfl (congrArg (fun w : World => w.commands.length) hsame)
      · exact takes_of_submit hsound rfl hmarker
    | _ => exact .nothing rfl rfl

/-- What a queue takes becomes the newest command that it has accepted. -/
theorem Step.accepted_of_taken (hsound : s.Sound) (hstep : Step s l s') {kind : CommandKind}
    (htaking : s.taking? l = some ⟨q, kind⟩) :
    s'.world.accepted q = s.world.accepted q ++ [s.world.commands.length] ∧
      (s'.world.queue q).last = some s.world.commands.length := by
  cases hstep.takes hsound with
  | nothing hnone =>
    rw [hnone] at htaking
    cases htaking
  | command command htaking' htakes hworld =>
    have hq : command.queue = q :=
      congrArg Taking.queue (Option.some.inj (htaking'.symm.trans htaking))
    subst hq
    rw [hworld, World.accepted_submit_self htakes, World.queue_submit_self htakes]
    exact ⟨rfl, rfl⟩

namespace Sound

variable (hsound : s.Sound) (hstep : Step s l s')
include hsound hstep

theorem taken_of_step : s'.world.taken = s.world.taken ++ (s.taking? l).toList := by
  cases hstep.takes hsound with
  | nothing hnone hlength =>
    rw [World.taken_of_grows (hsound.grows_of_step hstep) hlength, hnone, Option.toList_none,
      List.append_nil]
  | command command htaking htakes hworld =>
    rw [World.taken, hworld, World.commands_submit htakes, List.map_append, htaking]
    rfl

/-- A step in which a queue takes nothing leaves it with what it has accepted. -/
theorem accepted_of_not_taken (hnone : ∀ kind, s.taking? l ≠ some ⟨q, kind⟩) :
    s'.world.accepted q = s.world.accepted q ∧
      (s'.world.queue q).last = (s.world.queue q).last := by
  have haccepted : s'.world.accepted q = s.world.accepted q := by
    cases hstep.takes hsound with
    | nothing _ hlength =>
      rw [World.accepted_of_grows (hsound.grows_of_step hstep) hlength]
    | command command htaking htakes hworld =>
      have hq : q ≠ command.queue := by
        rintro rfl
        exact hnone _ htaking
      rw [hworld, World.accepted_submit_of_ne htakes hq]
  refine ⟨haccepted, ?_⟩
  rw [hsound.world.newest q, (hsound.of_step hstep).world.newest q, haccepted]

end Sound

/-! ## Runs -/

theorem takings_append {x : Machine} (hrun : Run s h x) (h' : History) :
    s.takings (h ++ h') = s.takings h ++ x.takings h' := by
  induction h generalizing s with
  | nil =>
    obtain rfl := hrun.eq_of_nil
    rfl
  | cons l h ih =>
    obtain ⟨y, hstep, hrest⟩ := hrun.uncons
    simp only [List.cons_append, takings, hstep.next_eq, ih hrest, List.append_assoc]

theorem Sound.taken_of_run (hsound : s.Sound) (hrun : Run s h s') :
    s'.world.taken = s.world.taken ++ s.takings h := by
  induction hrun with
  | refl => exact (List.append_nil _).symm
  | @snoc h l x y hbefore hstep ih =>
    rw [(hsound.of_run hbefore).taken_of_step hstep, ih, takings_append hbefore, takings, takings,
      List.append_nil, List.append_assoc]

/-- The commands of the world are those that queues took, in order. -/
theorem takings_of_run {process : Nat → UInt64} (hrun : Run (start process) h s) :
    s.world.taken = (start process).takings h :=
  ((Sound.start process).taken_of_run hrun).trans (List.nil_append _)

end Machine

end SyncPoint.Host
