import SyncPoint.Proofs.Host.Gate
import SyncPoint.Proofs.Host.Timing
import SyncPoint.Proofs.Machine.Closing
import SyncPoint.Proofs.Machine.Effects

/-!
# Paused queues

While nobody resumes a paused queue its gate is closed (`Machine.Run.paused`), and the worker gets
nothing past it (`Machine.pastGate?_of_run`).  Of the queue's commands only the one that was past
the gate when the queue was paused is then begun, worked on or completed, and whatever waits for
another one waits with it (`Machine.pause_holds`).  Nobody resumes a queue whose last handle is
gone, so its gate holds for ever.
-/

namespace SyncPoint.Host

variable {q r : QueueRef} {c : CommandRef}

/-- A worker that is about to begin a command is about to execute it. -/
theorem Worker.executing?_of_starting? {worker : Worker} (h : worker.starting? = some c) :
    worker.executing? = some c := by
  unfold starting? at h
  split at h <;> cases h
  rfl

/-- The queue that a step resumes. -/
def Happening.resumed? : Happening → Option QueueRef
  | .enter _ (.setPaused q false) => some q
  | _ => none

/-- Nobody resumes the queue in these steps. -/
def Unresumed (q : QueueRef) (h : History) : Prop := ∀ l ∈ h, l.resumed? ≠ some q

theorem unresumed_append {h h' : History} :
    Unresumed q (h ++ h') ↔ Unresumed q h ∧ Unresumed q h' :=
  List.forall_mem_append

namespace World

/-- Neither the command nor anything that waits for it, directly or not, has run. -/
def Withheld (w : World) (c : CommandRef) : Prop :=
  ∀ d, w.Requires d c → w.status d = .pending

theorem Sound.withheld {w : World} (h : w.Sound) (hc : w.status c = .pending) : w.Withheld c := by
  intro d hd
  cases hstatus : w.status d with
  | pending => rfl
  | complete =>
    have hcomplete := h.complete_of_requires hstatus hd
    rw [hc] at hcomplete
    cases hcomplete

theorem mem_completed {w : World} :
    c ∈ w.completed q ↔ (w.command c).queue = q ∧ w.status c = .complete := by
  simp only [completed, List.mem_filter, mem_accepted, decide_eq_true_eq]
  exact ⟨fun h => ⟨h.1.2, h.2⟩, fun h => ⟨⟨lt_of_status_eq_complete h.2, h.1⟩, h.2⟩⟩

theorem status_of_le {w : World} (hc : w.commands.length ≤ c) : w.status c = .pending := by
  rw [status, w.command_of_le hc]
  rfl

/-- What a queue accepts later is a later command. -/
theorem Grows.new {w w' : World} (h : w.Grows w') (hc : c ∈ w'.accepted q)
    (hnew : c ∉ w.accepted q) : w.commands.length ≤ c := by
  obtain ⟨-, hqueue⟩ := mem_accepted.1 hc
  by_contra hlt
  have hlt := Nat.lt_of_not_le hlt
  rw [h.queue_command hlt] at hqueue
  exact hnew (mem_accepted.2 ⟨hlt, hqueue⟩)

theorem paused_setQueue {w : World} {queue : Queue} (h : (w.queue q).paused = true)
    (hqueue : q = r → queue.paused = true) : ((w.setQueue r queue).queue q).paused = true := by
  rcases w.queue_setQueue_cases r queue q with hsame | ⟨hqr, hself⟩
  · rw [hsame]
    exact h
  · rw [hself]
    exact hqueue hqr

end World

/-! ## Closed gates stay closed -/

theorem Call.paused_enter (system : System World) {call : Call}
    (hq : q < system.engine.queues.length) (hcall : call ≠ .setPaused q false)
    (h : (system.engine.queue q).paused = true) :
    ((call.enter system).2.engine.queue q).paused = true := by
  have hsubmit : ∀ command, ((system.engine.submit command).state.queue q).paused = true := by
    intro command
    rw [(World.SameSettings.submit system.engine command q).2.2]
    exact h
  cases call with
  | newQueue config =>
    show ((system.engine.addQueue config).2.queue q).paused = true
    rw [system.engine.queue_addQueue_of_lt config hq]
    exact h
  | setPaused r paused =>
    refine World.paused_setQueue h ?_
    rintro rfl
    cases paused with
    | false => exact absurd rfl hcall
    | true => rfl
  | cloneQueue | dropQueue | shutdown =>
    refine World.paused_setQueue h ?_
    rintro rfl
    exact h
  | enqueueWork | enqueueMarker | finish => exact hsubmit _
  | _ => exact h

namespace Machine

variable {s s₁ s' s'' : Machine} {t : ThreadId} {l : Happening} {h h' : History}

theorem Step.paused (hstep : Step s l s') (hq : q < s.world.queues.length)
    (hl : l.resumed? ≠ some q) (h : (s.world.queue q).paused = true) :
    (s'.world.queue q).paused = true := by
  by_cases hcall : ∃ t call, l = .enter t call
  · obtain ⟨t, call, rfl⟩ := hcall
    cases hstep with
    | enter =>
      refine Call.paused_enter s.system hq ?_ h
      rintro rfl
      exact hl rfl
  · rw [(hstep.same_settings (fun t call heq => hcall ⟨t, call, heq⟩) q).2.2]
    exact h

/-- Between two steps that nobody resumes the queue in, its gate stays closed. -/
theorem Run.paused (hrun : Run s h s') (hsound : s.Sound) (hq : q < s.world.queues.length)
    (hresumed : Unresumed q h) (hpaused : (s.world.queue q).paused = true) :
    (s'.world.queue q).paused = true := by
  induction hrun with
  | refl => exact hpaused
  | snoc hbefore hstep ih =>
    obtain ⟨hkept, hlast⟩ := unresumed_append.1 hresumed
    exact hstep.paused (Nat.lt_of_lt_of_le hq (hsound.grows hbefore).queues_le)
      (hlast _ List.mem_cons_self) (ih hkept)

/-- Nobody resumes a queue that is gone. -/
theorem Run.not_resumed_of_gone (hrun : Run s h s') (hsound : s.Sound)
    (hq : q < s.world.queues.length) (hgone : (s.world.queue q).handles = 0) :
    Unresumed q h := by
  intro l hl hresumed
  obtain ⟨before, after, rfl⟩ := List.append_of_mem hl
  obtain ⟨x, hbefore, hrest⟩ := hrun.split
  obtain ⟨y, hstep, -⟩ := hrest.uncons
  have hx := hbefore.gone hsound hq hgone
  unfold Happening.resumed? at hresumed
  split at hresumed <;> cases hresumed
  cases hstep with
  | enter _ hallowed =>
    have hhandles := hallowed.queues q List.mem_cons_self
    rw [hx] at hhandles
    exact Nat.lt_irrefl 0 hhandles

/-! ## The gate is all there is to it -/

/-- A step lets nothing past a closed gate. -/
theorem Sound.pastGate?_of_step (hsound : s.Sound) (hstep : Step s l s')
    (hpaused : (s.world.queue q).paused = true)
    (hc : (s'.world.queue q).worker.pastGate? = some c) :
    (s.world.queue q).worker.pastGate? = some c := by
  rcases hsound.world_of_step hstep with ⟨r, -, hworks⟩ | ⟨-, hsame | hcalled⟩
  · exact hworks.pastGate?_of_paused hpaused hc
  · rw [← hsame]
    exact hc
  · rw [← hcalled.worker_eq]
    exact hc

/-- A step completes a command only past the gate of its queue. -/
theorem Sound.pastGate?_of_completing (hsound : s.Sound) (hstep : Step s l s')
    (hpending : s.world.status c = .pending) (hcomplete : s'.world.status c = .complete) :
    (s.world.queue (s.world.command c).queue).worker.pastGate? = some c := by
  rcases hsound.world_of_step hstep with ⟨r, -, hworks⟩ | ⟨-, hsame | hcalled⟩
  · exact hsound.world.pastGate?_of_completes hworks hpending hcomplete
  · rw [hsame, hpending] at hcomplete
    cases hcomplete
  · rw [hcalled.status, hpending] at hcomplete
    cases hcomplete

/-- A step leaves a command that is past the gate where it is, or completes it. -/
theorem Sound.complete_or_pastGate? (hsound : s.Sound) (hstep : Step s l s')
    (hc : (s.world.queue q).worker.pastGate? = some c) :
    s'.world.status c = .complete ∨ (s'.world.queue q).worker.pastGate? = some c := by
  rcases hsound.world_of_step hstep with ⟨r, -, hworks⟩ | ⟨-, hsame | hcalled⟩
  · exact hworks.complete_or_pastGate? hc (hsound.world.queue_of_pastGate? hc).1
  · rw [hsame]
    exact .inr hc
  · rw [hcalled.worker_eq]
    exact .inr hc

/-- A list without duplicates, of a single value if any, is empty or that value. -/
theorem prefix_toList_of_nodup {α : Type} {l : List α} {value : Option α} (hnodup : l.Nodup)
    (hvalue : ∀ a ∈ l, value = some a) : l <+: value.toList := by
  cases l with
  | nil => exact List.nil_prefix
  | cons a rest =>
    obtain rfl := hvalue a List.mem_cons_self
    cases rest with
    | nil => exact List.prefix_rfl
    | cons b rest =>
      cases hvalue b (by simp)
      simp at hnodup

/-- No command is begun twice along a run. -/
theorem nodup_begun_of_run (hs : s.Reachable) (hrun : Run s h s') :
    (begun h).Nodup := by
  obtain ⟨process, before, hbefore⟩ := hs
  have honce := (executed_of_run (hbefore.trans hrun)).once
  rw [begun, List.filterMap_append] at honce
  exact (List.nodup_append.1 honce).2.1

section Run

variable (hsound : s.Sound) (hrun : Run s h s') (hq : q < s.world.queues.length)
  (hresumed : Unresumed q h) (hpaused : (s.world.queue q).paused = true)
include hsound hrun hq hresumed hpaused

/-- What is past the gate was past it when the queue was paused. -/
theorem pastGate?_of_run (hc : (s'.world.queue q).worker.pastGate? = some c) :
    (s.world.queue q).worker.pastGate? = some c := by
  induction hrun with
  | refl => exact hc
  | @snoc h l x y hbefore hstep ih =>
    have hkept := (unresumed_append.1 hresumed).1
    refine ih hkept ((hsound.of_run hbefore).pastGate?_of_step hstep ?_ hc)
    exact hbefore.paused hsound hq hkept hpaused

/-- Only what was past the gate when the queue was paused completes. -/
theorem pastGate?_of_completed (hqueue : (s'.world.command c).queue = q)
    (hpending : s.world.status c = .pending) (hcomplete : s'.world.status c = .complete) :
    (s.world.queue q).worker.pastGate? = some c := by
  induction hrun with
  | refl =>
    rw [hpending] at hcomplete
    cases hcomplete
  | @snoc h l x y hbefore hstep ih =>
    have hkept := (unresumed_append.1 hresumed).1
    have hx := hsound.of_run hbefore
    have hgrows := hx.grows_of_step hstep
    cases hstatus : x.world.status c with
    | complete =>
      rw [hgrows.queue_command (World.lt_of_status_eq_complete hstatus)] at hqueue
      exact ih hkept hqueue hstatus
    | pending =>
      have hpast := hx.pastGate?_of_completing hstep hstatus hcomplete
      have hlength := (hx.world.queue_of_pastGate? hpast).1
      rw [hgrows.queue_command hlength] at hqueue
      rw [hqueue] at hpast
      exact pastGate?_of_run hsound hbefore hq hkept hpaused hpast

/-- Only what was past the gate when the queue was paused is executed. -/
theorem pastGate?_of_executed {place : Worker} (hl : .worker r place ∈ h)
    (hexecuting : place.executing? = some c) (hqueue : (s'.world.command c).queue = q) :
    (s.world.queue q).worker.pastGate? = some c := by
  obtain ⟨before, after, rfl⟩ := List.append_of_mem hl
  obtain ⟨x, hbefore, hrest⟩ := hrun.split
  obtain ⟨y, hstep, -⟩ := hrest.uncons
  have hx := hsound.of_run hbefore
  cases hstep with
  | worker =>
    have hpast := Worker.pastGate?_of_executing? hexecuting
    obtain ⟨hlength, hr⟩ := hx.world.queue_of_pastGate? hpast
    rw [(hx.grows hrest).queue_command hlength, hr] at hqueue
    subst hqueue
    exact pastGate?_of_run hsound hbefore hq (unresumed_append.1 hresumed).1 hpaused hpast

/-- What has completed since the queue was paused was past the gate. -/
theorem pastGate?_of_mem_done {done : List CommandRef}
    (hdone : s.world.completed q ++ done = s'.world.completed q) :
    done.Nodup ∧ ∀ c ∈ done, (s.world.queue q).worker.pastGate? = some c := by
  have hnodup : (s'.world.completed q).Nodup := (s'.world.accepted_nodup q).filter _
  rw [← hdone] at hnodup
  obtain ⟨-, hnodup, hdisjoint⟩ := List.nodup_append.1 hnodup
  refine ⟨hnodup, fun c hc => ?_⟩
  obtain ⟨hqueue, hcomplete⟩ := World.mem_completed.1 (hdone ▸ List.mem_append_right _ hc)
  refine pastGate?_of_completed hsound hrun hq hresumed hpaused hqueue ?_ hcomplete
  cases hstatus : s.world.status c with
  | pending => rfl
  | complete =>
    rw [(hsound.grows hrun).queue_command (World.lt_of_status_eq_complete hstatus)] at hqueue
    exact absurd rfl (hdisjoint c (World.mem_completed.2 ⟨hqueue, hstatus⟩) c hc)

/-- What had not run and was not past the gate when the queue was paused is withheld. -/
theorem withheld_of_run (hqueue : (s'.world.command c).queue = q)
    (hpending : s.world.status c = .pending) (hnot : (s.world.queue q).worker.pastGate? ≠ some c) :
    s'.world.Withheld c := by
  refine (hsound.of_run hrun).world.withheld ?_
  cases hstatus : s'.world.status c with
  | pending => rfl
  | complete =>
    have hpast := pastGate?_of_completed hsound hrun hq hresumed hpaused hqueue hpending hstatus
    exact absurd hpast hnot

/-- What was begun since the queue was paused was past the gate. -/
theorem pastGate?_of_begun (hc : c ∈ begun h) (hqueue : (s'.world.command c).queue = q) :
    (s.world.queue q).worker.pastGate? = some c := by
  obtain ⟨l, hl, hstart⟩ := List.mem_filterMap.1 hc
  cases l with
  | worker r place =>
    have hexecuting := Worker.executing?_of_starting? hstart
    exact pastGate?_of_executed hsound hrun hq hresumed hpaused hl hexecuting hqueue
  | enter | ask => cases hstart

end Run

/-- What is past the gate stays there until it has run. -/
theorem Run.complete_or_pastGate? (hrun : Run s h s') (hsound : s.Sound)
    (hc : (s.world.queue q).worker.pastGate? = some c) :
    s'.world.status c = .complete ∨ (s'.world.queue q).worker.pastGate? = some c := by
  induction hrun with
  | refl => exact .inr hc
  | snoc hbefore hstep ih =>
    have hx := hsound.of_run hbefore
    rcases ih with hcomplete | hpast
    · exact .inl ((hx.grows_of_step hstep).status hcomplete)
    · exact hx.complete_or_pastGate? hstep hpast

/-! ## What a pause holds back -/

/-- What the gate of the queue `q`, closed in `s`, means for the steps `h` since then and for the
state `s'` that they lead to. -/
structure GateHolds (s : Machine) (q : QueueRef) (h : History) (s' : Machine) : Prop where
  closed : (s'.world.queue q).paused = true
  /-- Of the queue's commands none is begun but the one that was past the gate. -/
  begun : (begun h).filter (fun c => (s'.world.command c).queue = q) <+:
    (s.world.queue q).worker.pastGate?.toList
  /-- A worker that is about to read the clock for a command of the queue, to do its work or to
  complete it does so for that one. -/
  executed : ∀ r place c, .worker r place ∈ h → place.executing? = some c →
    (s'.world.command c).queue = q → (s.world.queue q).worker.pastGate? = some c
  /-- Of the queue's commands none completes but that one. -/
  completed : ∃ done, done <+: (s.world.queue q).worker.pastGate?.toList ∧
    s'.world.completed q = s.world.completed q ++ done
  /-- The gate does not hold that one up, only the commands that it waits for do. -/
  admitted : ∀ c, (s.world.queue q).worker.pastGate? = some c → s'.world.status c = .complete ∨
    ((∀ d ∈ (s'.world.command c).waitList, s'.world.status d = .complete) →
      s'.world.step? q ≠ none)
  /-- None of the others runs, nor does anything that waits for one of them. -/
  withheld : ∀ c ∈ s'.world.accepted q, s.world.status c = .pending →
    (s.world.queue q).worker.pastGate? ≠ some c → s'.world.Withheld c
  /-- What the queue accepts behind the gate is withheld. -/
  enqueued : ∀ c ∈ s'.world.accepted q, c ∉ s.world.accepted q → s'.world.Withheld c

/-- While nobody resumes a queue that is paused, its gate holds. -/
theorem gateHolds_of_paused (hs : s.Reachable) (hq : q < s.world.queues.length)
    (hpaused : (s.world.queue q).paused = true) (hrun : Run s h s')
    (hresumed : Unresumed q h) : GateHolds s q h s' := by
  have hsound := sound_of_reachable hs
  have hsound' := hsound.of_run hrun
  have hgrows := hsound.grows hrun
  have hbegun := (nodup_begun_of_run hs hrun).filter fun c => (s'.world.command c).queue = q
  refine ⟨hrun.paused hsound hq hresumed hpaused, prefix_toList_of_nodup hbegun fun c hc => ?_,
    fun _ _ _ => pastGate?_of_executed hsound hrun hq hresumed hpaused, ?_, ?_, ?_, ?_⟩
  · obtain ⟨hc, hqueue⟩ := List.mem_filter.1 hc
    exact pastGate?_of_begun hsound hrun hq hresumed hpaused hc (by simpa using hqueue)
  · obtain ⟨done, hdone⟩ := hgrows.completed hsound.world hsound'.world q
    obtain ⟨hnodup, hpast⟩ := pastGate?_of_mem_done hsound hrun hq hresumed hpaused hdone
    exact ⟨done, prefix_toList_of_nodup hnodup hpast, hdone.symm⟩
  · intro c hc
    refine (hrun.complete_or_pastGate? hsound hc).imp id fun hpast hfree => ?_
    exact hsound'.world.step?_ne_none_of_pastGate? hpast hfree
  · intro c hc
    exact withheld_of_run hsound hrun hq hresumed hpaused (World.mem_accepted.1 hc).2
  · intro c hc hnew
    have hge := hgrows.new hc hnew
    refine withheld_of_run hsound hrun hq hresumed hpaused (World.mem_accepted.1 hc).2
      (World.status_of_le hge) fun hpast => ?_
    exact absurd hge (Nat.not_le_of_lt (hsound.world.queue_of_pastGate? hpast).1)

/-- What the gate holds back it has held back from the pause on, which moves no worker and changes
nothing about commands. -/
theorem GateHolds.of_pause (hpause : Step s (.enter t (.setPaused q true)) s₁)
    (hholds : GateHolds s₁ q h s') : GateHolds s q h s' := by
  obtain ⟨hworker, hstatus, haccepted⟩ : (s₁.world.queue q).worker = (s.world.queue q).worker ∧
      s₁.world.status = s.world.status ∧ s₁.world.accepted = s.world.accepted := by
    cases hpause
    exact ⟨(World.Called.setPaused q true).worker_eq q, rfl, rfl⟩
  obtain ⟨hclosed, hbegun, hexecuted, hcompleted, hadmitted, hwithheld, henqueued⟩ := hholds
  rw [hworker] at hbegun hcompleted
  rw [World.completed_congr haccepted hstatus] at hcompleted
  simp only [hworker, hstatus, haccepted] at hexecuted hadmitted hwithheld henqueued
  exact ⟨hclosed, hbegun, hexecuted, hcompleted, hadmitted, hwithheld, henqueued⟩

/-- What a pause of the queue `q` in `s` has held back by the end of the steps `h`, in `s'`, and
holds back for ever if the queue is gone by then. -/
structure PauseHolds (s : Machine) (q : QueueRef) (h : History) (s' : Machine) : Prop where
  meanwhile : GateHolds s q h s'
  forever : (s'.world.queue q).handles = 0 →
    ∀ h' s'', Run s' h' s'' → GateHolds s q (h ++ h') s''

/-- Until somebody resumes it, a queue that was paused goes on with at most the command that its
worker had got past the gate. All that it accepts meanwhile waits, and so does whatever waits for
that. -/
theorem pause_holds (hs : s.Reachable) (hpause : Step s (.enter t (.setPaused q true)) s₁)
    (hrun : Run s₁ h s') (hresumed : Unresumed q h) : PauseHolds s q h s' := by
  have hs₁ := hs.run hpause.run
  have hsound₁ := sound_of_reachable hs₁
  have hq : q < s.world.queues.length := by
    cases hpause with
    | enter _ hallowed => exact lt_of_handles (hallowed.queues q List.mem_cons_self)
  have hpaused : (s₁.world.queue q).paused = true := by
    cases hpause
    exact congrArg Queue.paused (s.world.queue_setQueue_self hq _)
  have hq₁ := Nat.lt_of_lt_of_le hq ((sound_of_reachable hs).grows_of_step hpause).queues_le
  refine ⟨(gateHolds_of_paused hs₁ hq₁ hpaused hrun hresumed).of_pause hpause, ?_⟩
  intro hgone h' s'' hrun'
  have hq' := Nat.lt_of_lt_of_le hq₁ (hsound₁.grows hrun).queues_le
  have hnone := hrun'.not_resumed_of_gone (hsound₁.of_run hrun) hq' hgone
  exact (gateHolds_of_paused hs₁ hq₁ hpaused (hrun.trans hrun')
    (unresumed_append.2 ⟨hresumed, hnone⟩)).of_pause hpause

/-! ### A pause that comes while the worker waits for another queue -/

namespace Waiting

def markerAfter (c : CommandRef) : MarkerRequest CommandRef :=
  { timing := .untimed, waitList := [c] }

/-- The first queue's worker has got a marker past the gate, and waits for work on the second. -/
def waiting : Machine :=
  reached [.call 0 (.newQueue {}), .call 0 (.newQueue {}), .call 0 (.enqueueWork 1 []),
    .call 0 (.enqueueMarker 0 (markerAfter 0)), .worker 0, .worker 0] (start fun _ => 0)

def paused : Machine := waiting.enter 0 (.setPaused 0 true)

/-- The first queue accepts work for which the second then waits, and everybody goes on as far as
they can. -/
def turns : List Turn :=
  [.call 0 (.enqueueWork 0 []), .call 0 (.enqueueMarker 1 (markerAfter 2))] ++
    List.replicate 7 (.worker 1) ++ List.replicate 5 (.worker 0)

def stuck : Machine := reached turns paused

/-- The last handle of the first queue is dropped. -/
def gone : Machine := stuck.enter 0 (.dropQueue 0)

theorem step_paused : Step waiting (.enter 0 (.setPaused 0 true)) paused :=
  .enter (idle_of_idle (by decide)) (allows_of_permits (by decide))

theorem idle_stuck : ∀ t, stuck.Idle t
  | 0 => idle_of_idle (by decide)
  | _ + 1 => idle_of_idle rfl

theorem step_gone : Step stuck (.enter 0 (.dropQueue 0)) gone := by
  refine .enter (idle_stuck 0) ⟨by decide, nofun, nofun, nofun, nofun, ?_, nofun⟩
  rintro q - - ⟨t, task, htask, hunfinished, -⟩
  exact idle_stuck t task htask hunfinished

end Waiting

open Waiting in
theorem pause_holds_gone :
    (waiting.world.queue 0).worker.pastGate? = some 1 ∧ gone.world.completed 0 = [1] ∧
      (gone.world.queue 0).handles = 0 ∧ gone.world.accepted 0 = [1, 2] ∧
        PauseHolds waiting 0 (told turns paused ++ [.enter 0 (.dropQueue 0)]) gone := by
  have hwaiting : waiting.Reachable := ⟨_, _, run_reached (by decide)⟩
  have hstuck : Run paused (told turns paused) stuck := run_reached (by decide)
  have hgone := hstuck.snoc step_gone
  refine ⟨rfl, by decide, by decide, by decide, ?_⟩
  have hresumed : Unresumed 0 (told turns paused ++ [.enter 0 (.dropQueue 0)]) := by
    show ∀ l ∈ _, Happening.resumed? l ≠ some 0
    decide
  exact pause_holds hwaiting step_paused hgone hresumed

end Machine

end SyncPoint.Host
