import SyncPoint.Proofs.Machine.Handles

/-!
# Results of operations

What an operation returns, where all that it depends on is known in advance: whether a command
belongs to a queue, and what comes of recording on a queue that takes no commands and of making
another queue wait for one that cannot go on.  Only the results matter here, so nothing needs to be
known of what operations leave behind.
-/

namespace SyncPoint.Host

variable {α : Type} {t : ThreadId} {inv : System World → Prop} {system : System World}
  {event : Event} {q r : QueueRef} {c p : CommandRef}

/-! ## Under locks -/

/-- What is returned under a lock is returned. -/
theorem ensures_locking_value {post : α → Prop} {body : Program α}
    (hevent : event.ordinal < system.cells.length)
    (hbody : ∀ locked, Meanwhile t system locked → holder locked event.ordinal = some t →
      Ensures t inv (fun _ value => post value) body locked) :
    Ensures t inv (fun _ value => post value) (event.locking body) system := by
  intro asked _ locked hmeanwhile _ hserves hlater
  have hlocked := hmeanwhile.trans (hserves.meanwhile_lock hlater)
  cases hserves with
  | lock =>
    have hlt := Nat.lt_of_lt_of_le hevent hmeanwhile.cells_le
    show Ensures t inv _ (body.andThen _) _
    refine (hbody _ hlocked (holder_setCell_self hlt _)).andThen ?_
    intro system' value hvalue _ _ _ _ _ _ _
    exact hvalue

theorem ensures_guardingBoth_value {start stop : Event} {post : Except Failure α → Prop}
    {operation : Operation α} (hstart : start.ordinal < system.cells.length)
    (hstop : stop.ordinal < system.cells.length)
    (hbody : ∀ locked, Later system locked → holder locked start.ordinal = some t →
      holder locked stop.ordinal = some t →
        Ensures t inv (fun _ result => post result) operation.run locked) :
    Ensures t inv (fun _ result => post result)
      (Event.guardingBoth start stop operation).run system := by
  unfold Event.guardingBoth
  split
  · refine ensures_locking_value hstart fun locked hlocked hheld => ?_
    have hstop' := Nat.lt_of_lt_of_le hstop hlocked.cells_le
    refine ensures_locking_value hstop' fun locked' hlocked' hheld' => ?_
    exact hbody locked' (hlocked.trans hlocked').toLater (hlocked'.holder hheld) hheld'
  · refine ensures_locking_value hstop fun locked hlocked hheld => ?_
    have hstart' := Nat.lt_of_lt_of_le hstart hlocked.cells_le
    refine ensures_locking_value hstart' fun locked' hlocked' hheld' => ?_
    exact hbody locked' (hlocked.trans hlocked').toLater hheld' (hlocked'.holder hheld)

/-! ## Choosing a position -/

section Choice

variable {w : World}

/-- A command is accepted as a position of a queue exactly if it belongs to the queue. -/
theorem ensures_choosePosition_some (hw : w.Sound) (hgrows : w.Grows system.engine)
    (hc : c < w.commands.length) (hq : q < w.queues.length) :
    Ensures t inv (fun _ result => result = if (w.command c).queue = q then .ok c
      else .error (.foreignCommand (w.queue (w.command c).queue).id (w.queue q).id))
      (Event.choosePosition q (some c)).run system := by
  refine ensures_bind_engine fun asked₁ reply₁ found₁ h₁ h₁' hserve₁ _ => ?_
  cases hserve₁
  refine ensures_bind_engine fun asked₂ reply₂ found₂ h₂ _ hserve₂ _ => ?_
  cases hserve₂
  have hgrows₁ := hgrows.trans h₁.grows
  have hgrows₂ := hgrows₁.trans (h₁'.trans h₂).grows
  have howner : (asked₁.engine.queue (asked₁.engine.command c).queue).id =
      (w.queue (w.command c).queue).id := by
    rw [hgrows₁.queue_command hc, (hgrows₁.queue _ (hw.owner c hc)).1]
  simp only [howner, (hgrows₂.queue q hq).1]
  by_cases hqueue : (w.command c).queue = q
  · simp [hqueue, Ensures]
  · have hids : (w.queue (w.command c).queue).id ≠ (w.queue q).id :=
      fun hid => hqueue (hw.eq_of_id_eq (.refl w) (hw.owner c hc) hq hid)
    rw [if_neg hids, if_neg hqueue]
    rfl

/-- Binding an event fails exactly as choosing the position does. -/
theorem ensures_addMarker_result {command : Option CommandRef} {recorded : Bool}
    {chosen : Except Failure CommandRef} (hevent : event.ordinal < system.cells.length)
    (hposition : ∀ locked, Later system locked → Ensures t inv (fun _ result => result = chosen)
      (Event.choosePosition q command).run locked) :
    Ensures t inv (fun _ result => result = chosen.map fun _ => ())
      (event.addMarker q command recorded).run system := by
  refine ensures_locking_value hevent fun locked hlocked _ => ?_
  refine ensures_bind _ (hposition locked hlocked.toLater) ?_ ?_
  · rintro system' failure rfl
    rfl
  · rintro system' position rfl
    -- what follows succeeds
    intro _ current _ _ _ _ _ _ target _ _ _ _ _
    show Ensures t inv _ (ExceptT.run (ite _ _ _)) _
    split
    · intro _ _ _ _ _ _ _
      rfl
    · intro _ _ _ _ _ _ _ _ _ _ _ _ _ _
      rfl

end Choice

/-! ## Queues that take no commands -/

/-- The newest command of the queue, if recording takes it for the queue's end. -/
def World.reusable? (w : World) (q : QueueRef) : Option CommandRef :=
  if (w.queue q).profiling then (w.queue q).last.filter fun c => (w.command c).kind ≠ .barrier
  else none

/-- The queue was as it is in `w` and takes no commands. -/
structure Refuses (w : World) (q : QueueRef) (system : System World) : Prop where
  grows : w.Grows system.engine
  last : (system.engine.queue q).last = (w.queue q).last
  accepting : (system.engine.queue q).accepting = false

theorem ensures_marker_refused
    (hrefuses : ∀ x, inv x → (x.engine.queue q).accepting = false)
    (request : MarkerRequest CommandRef) :
    Ensures t inv (fun _ result => result = .error .queueShutDown)
      (ExceptT.mk (Program.engine (.enqueueMarker q request)) : Operation CommandRef).run
        system := by
  intro asked answer found _ hasked hserves _
  show answer = _
  rw [hserves.marker.1, World.enqueueMarker, World.submit_of_not_accepting (hrefuses asked hasked)]

/-- The end of a queue that takes no commands is the newest command, if that can be taken for it. -/
theorem ensures_currentPosition_refused {w : World} (hw : w.Sound) (hq : q < w.queues.length)
    (hrefuses : ∀ x, inv x → Refuses w q x) :
    Ensures t inv (fun _ result => result = (w.reusable? q).elim (.error .queueShutDown) .ok)
      (Event.currentPosition q).run system := by
  have hmarker : ∀ timing found, w.reusable? q = none → Ensures t inv
      (fun _ result => result = (w.reusable? q).elim (.error .queueShutDown) .ok)
        (Event.enqueueMarker q timing).run found := by
    intro timing found hnone
    rw [hnone]
    exact ensures_marker_refused (fun x hx => (hrefuses x hx).accepting) _
  intro asked₁ profiling found₁ _ hasked₁ hserves₁ _
  have hprofiling : (w.queue q).profiling = profiling := by
    rw [hserves₁.profiling, ((hrefuses asked₁ hasked₁).grows.queue q hq).2.1]
  cases profiling with
  | false => exact hmarker .untimed found₁ (by simp [World.reusable?, hprofiling])
  | true =>
    intro asked₂ last found₂ _ hasked₂ hserves₂ _
    have hlast : (w.queue q).last = last := by
      rw [hserves₂.lastEnqueued, (hrefuses asked₂ hasked₂).last]
    cases last with
    | none => exact hmarker .timed found₂ (by simp [World.reusable?, hlast])
    | some last =>
      intro asked₃ visible found₃ _ hasked₃ hserves₃ _
      have hkind : (asked₃.engine.command last).kind = (w.command last).kind := by
        rw [(hrefuses asked₃ hasked₃).grows.command last
          (hw.captures_last (Nat.zero_le _) hlast).1]
      have hvisible := hserves₃.userVisible
      rw [hkind] at hvisible
      cases visible with
      | true =>
        have hreused : w.reusable? q = some last := by
          simp [World.reusable?, hprofiling, hlast, Option.filter, of_decide_eq_true hvisible.symm]
        rw [hreused]
        rfl
      | false =>
        refine hmarker .timed found₃ ?_
        have hbarrier := of_decide_eq_false hvisible.symm
        simp [World.reusable?, hprofiling, hlast, Option.filter, not_not.1 hbarrier]

theorem ensures_currentPosition_reused {w : World} (hw : w.Sound) (hq : q < w.queues.length)
    (hrefuses : ∀ x, inv x → Refuses w q x) :
    Ensures t inv (fun system' result => Meanwhile t system system' ∧
      ∀ p, result = .ok p → w.reusable? q = some p) (Event.currentPosition q).run system := by
  have hmeanwhile : Ensures t inv (fun system' result => Meanwhile t system system' ∧
      ∀ p, result = .ok p → True) (Event.currentPosition q).run system :=
    ensures_currentPosition (fun _ _ => True) (fun _ _ _ _ => id)
      (fun _ _ _ _ _ _ _ _ => trivial) fun _ _ _ _ _ => trivial
  refine (hmeanwhile.and (ensures_currentPosition_refused hw hq hrefuses)).imp _ ?_
  rintro system' result ⟨⟨hlater, -⟩, hresult⟩
  refine ⟨hlater, fun p hp => ?_⟩
  rw [hresult] at hp
  cases hreused : w.reusable? q with
  | none => rw [hreused] at hp; cases hp
  | some c =>
    rw [hreused] at hp
    cases hp
    rfl

/-- No queue is made to wait for a command whose queue cannot go on. -/
theorem ensures_streamWait_stalled (hevent : event.ordinal < system.cells.length) (hne : r ≠ q)
    (hr : r < system.engine.queues.length)
    (hbound : ∀ x, inv x → ∃ c, (x.binding event).position? = some c ∧ c ∈ x.engine.accepted q)
    (hstalled : ∀ x, inv x → x.engine.canAdvance q = false) :
    Ensures t inv (fun _ result => result = .error .queueStalled)
      (event.streamWait r).run system := by
  refine ensures_locking_value hevent fun locked hlocked _ => ?_
  refine ensures_bind_binding fun read hread hasked => ?_
  obtain ⟨c, hposition, hmem⟩ := hbound read hasked
  obtain ⟨hc, hqueue⟩ := World.mem_accepted.1 hmem
  have hr' : r < read.engine.queues.length :=
    Nat.lt_of_lt_of_le hr (hlocked.grows.trans hread.grows).queues_le
  rw [hposition]
  refine ensures_bind_engine fun asked₁ reply₁ found₁ h₁ h₁' hserve₁ _ => ?_
  cases hserve₁
  refine ensures_bind_engine fun asked₂ reply₂ found₂ h₂ h₂' hserve₂ _ => ?_
  cases hserve₂
  have hgrows₂ := h₁'.grows.trans h₂.grows
  have hids : (asked₁.engine.queue (asked₁.engine.command c).queue).id ≠
      (asked₂.engine.queue r).id := by
    intro hid
    rw [h₁.grows.queue_command hc, hqueue] at hid
    have hq := h₁.world.owner c (Nat.lt_of_lt_of_le hc h₁.grows.commands_le)
    rw [h₁.grows.queue_command hc, hqueue] at hq
    exact hne (h₂.world.eq_of_id_eq hgrows₂ hq (Nat.lt_of_lt_of_le hr'
      (h₁.grows.trans hgrows₂).queues_le) hid).symm
  rw [if_neg hids]
  intro asked₃ able found₃ h₃ hasked₃ hserves₃ _
  have hable : able = false := by
    rw [hserves₃.tryAdvance,
      ((h₁.grows.trans hgrows₂).trans (h₂'.trans h₃).grows).queue_command hc, hqueue]
    exact hstalled asked₃ hasked₃
  subst hable
  rfl

end SyncPoint.Host
