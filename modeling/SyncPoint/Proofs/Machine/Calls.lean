import SyncPoint.Proofs.Host.Coverage
import SyncPoint.Proofs.Machine.Turn

/-!
# What calls ensure

What recording an event, making a queue wait for one, and looking at one or waiting for it bring
about, whatever other threads and the workers do meanwhile.
-/

namespace SyncPoint.Host

section Operations

variable {α β : Type} {t : ThreadId} {inv : System World → Prop}
  {post : System World → Except Failure α → Prop} {system : System World}

theorem ensures_bind (mid : System World → Except Failure β → Prop) {operation : Operation β}
    {next : β → Operation α} (h : Ensures t inv mid operation.run system)
    (hfailed : ∀ system' failure, mid system' (.error failure) → post system' (.error failure))
    (hnext : ∀ system' value, mid system' (.ok value) →
      Ensures t inv post (next value).run system') :
    Ensures t inv post (operation >>= next).run system := by
  refine h.andThen fun system' result hmid => ?_
  cases result with
  | error failure => exact hfailed system' failure hmid
  | ok value => exact hnext system' value hmid

theorem ensures_bind_engine {request : EngineRequest} {next : request.Answer → Operation α}
    (h : ∀ asked reply system', Meanwhile t system asked → Meanwhile t asked system' →
      asked.engine.serve request = some reply → system'.engine = reply.state →
        Ensures t inv post (next reply.value).run system') :
    Ensures t inv post ((liftM (Program.engine request) : Operation _) >>= next).run system :=
  ensures_engine h

theorem ensures_bind_binding {event : Event} {next : Binding → Operation α}
    (h : ∀ asked, Meanwhile t system asked → inv asked →
      Ensures t inv post (next (asked.binding event)).run asked) :
    Ensures t inv post
      ((liftM (Program.request (.binding event)) : Operation Binding) >>= next).run system :=
  ensures_binding h

theorem ensures_marker {q : QueueRef} {request : MarkerRequest CommandRef}
    {post : System World → Except Failure CommandRef → Prop}
    (h : ∀ asked system', Meanwhile t system asked → Meanwhile t asked system' →
      system'.engine = (asked.engine.enqueueMarker q request).state →
        post system' (asked.engine.enqueueMarker q request).value) :
    Ensures t inv post
      (ExceptT.mk (Program.engine (.enqueueMarker q request)) : Operation CommandRef).run
        system := by
  refine ensures_request fun asked reply system' hmeanwhile hmeanwhile' hserve hstate => ?_
  cases hserve
  exact h asked system' hmeanwhile hmeanwhile' hstate

end Operations

variable {t : ThreadId} {inv : System World → Prop} {system : System World} {event : Event}
  {q : QueueRef}

/-! ## Waiting on a queue -/

/-- When a queue was made to wait for an event, it covers what the event is bound to. -/
theorem ensures_streamWait (hevent : event.ordinal < system.cells.length)
    (hq : q < system.engine.queues.length) :
    Ensures t inv (fun system' result => result = .ok () →
      ∀ c ∈ (system'.binding event).position?, system'.engine.Covers q c)
      (event.streamWait q).run system := by
  refine ensures_locking hevent fun locked hlocked hheld => ?_
  refine ensures_bind_binding fun read hread _ => ?_
  have hheld' := hread.holder hheld
  -- nobody binds the event from here on
  refine Ensures.imp (fun system' result => Meanwhile t read system' ∧
    (result = .ok () → ∀ c ∈ (read.binding event).position?, system'.engine.Covers q c)) ?_
    fun system' result hend => ?_
  · split
    next hnone =>
      refine ⟨.refl hread.world hread.filed, fun _ c hc => ?_⟩
      rw [hnone] at hc
      cases hc
    next c hbound =>
      have hc := hread.filed.bound event c hbound
      have hpost : ∀ system', Meanwhile t read system' → system'.engine.Covers q c →
          Meanwhile t read system' ∧ ∀ d ∈ (read.binding event).position?,
            system'.engine.Covers q d := by
        intro system' hlater hcovers
        refine ⟨hlater, fun d hd => ?_⟩
        rw [hbound] at hd
        cases hd
        exact hcovers
      refine ensures_bind_engine fun asked₁ reply₁ found₁ h₁ h₁' hserve₁ hstate₁ => ?_
      cases hserve₁
      refine ensures_bind_engine fun asked₂ reply₂ found₂ h₂ h₂' hserve₂ hstate₂ => ?_
      cases hserve₂
      have hfound₂ := (h₁.trans h₁').trans (h₂.trans h₂')
      split
      next hsame =>
        -- the event is bound to a command of the queue itself
        have hold : c < asked₁.engine.commands.length := Nat.lt_of_lt_of_le hc h₁.grows.commands_le
        have hqueue : (asked₁.engine.command c).queue = q :=
          h₂.world.eq_of_id_eq (h₁'.grows.trans h₂.grows) (h₁.world.owner c hold)
            (Nat.lt_of_lt_of_le hq
              ((hlocked.trans hread.toLater).trans ((h₁.trans h₁').trans h₂).toLater).grows.queues_le)
            hsame
        have hcovers : asked₁.engine.Covers q c := hqueue ▸ World.covers_self hold
        exact ⟨hfound₂, fun _ => (hpost found₂ hfound₂ (hcovers.grows h₁.world
          (h₁'.grows.trans (h₂.grows.trans h₂'.grows)))).2⟩
      next =>
        refine ensures_bind_engine fun asked₃ reply₃ found₃ h₃ h₃' hserve₃ hstate₃ => ?_
        split
        next => exact ⟨hfound₂.trans (h₃.trans h₃'), nofun⟩
        next =>
          refine ensures_bind_engine fun asked₄ reply₄ found₄ h₄ h₄' hserve₄ hstate₄ => ?_
          have hfound₄ := (hfound₂.trans (h₃.trans h₃')).trans (h₄.trans h₄')
          refine ensures_bind (fun system' result => Meanwhile t read system' ∧
            ∀ m, result = .ok m → system'.engine.Covers q c) ?_ ?_ ?_
          · refine ensures_marker fun asked₅ found₅ h₅ h₅' hstate₅ => ?_
            refine ⟨hfound₄.trans (h₅.trans h₅'), fun m hm => ?_⟩
            rw [hstate₅]
            exact World.covers_submit hm (by simp)
          · exact fun system' failure hfailed => ⟨hfailed.1, nofun⟩
          · intro system' m hend
            refine ensures_log fun logged hlogged => ?_
            have hcovers := (hend.2 m rfl).grows hend.1.world hlogged.grows
            exact ⟨hend.1.trans hlogged, fun _ => (hpost logged (hend.1.trans hlogged) hcovers).2⟩
  · refine ⟨hend.1.holder hheld', fun system'' hlater hbinding hok c hc => ?_⟩
    rw [hbinding, hend.1.binding hheld'] at hc
    exact (hend.2 hok c hc).grows hend.1.world hlater.grows

/-! ## Recording -/

/-- The current end of a queue is a marker that was enqueued, untimed only if the queue does not
profile, or the newest command found there. What holds of it then and lasts holds in the end. -/
theorem ensures_currentPosition (holds : World → CommandRef → Prop)
    (hlasts : ∀ w w' p, w.Grows w' → holds w p → holds w' p)
    (hmarker : ∀ asked found, Meanwhile t system asked → Meanwhile t asked found →
      ∀ timing c, timing = .timed ∨ (asked.engine.queue q).profiling = false →
        (found.engine.enqueueMarker q ⟨timing, []⟩).value = .ok c →
          holds (found.engine.enqueueMarker q ⟨timing, []⟩).state c)
    (hlast : ∀ asked c, Meanwhile t system asked → inv asked →
      (asked.engine.queue q).last = some c → holds asked.engine c) :
    Ensures t inv (fun system' result => Meanwhile t system system' ∧
      ∀ p, result = .ok p → holds system'.engine p) (Event.currentPosition q).run system := by
  intro asked₁ profiling found₁ h₁ _ hserves₁ hlater₁
  have h₁' : Meanwhile t asked₁ found₁ := hserves₁.meanwhile hlater₁
  have hnew : ∀ found timing, Meanwhile t asked₁ found → timing = .timed ∨ profiling = false →
      Ensures t inv (fun system' result => Meanwhile t system system' ∧
        ∀ p, result = .ok p → holds system'.engine p) (Event.enqueueMarker q timing).run found := by
    intro found timing hfound htiming
    rw [hserves₁.profiling] at htiming
    refine ensures_marker ?_
    intro asked found' h h' hstate
    refine ⟨h₁.trans (hfound.trans (h.trans h')), ?_⟩
    intro p hp
    rw [hstate]
    exact hmarker asked₁ asked h₁ (hfound.trans h) timing p htiming hp
  cases profiling with
  | false => exact hnew found₁ .untimed h₁' (.inr rfl)
  | true =>
    intro asked₂ last found₂ h₂ hasked₂ hserves₂ hlater₂
    have h₂' := h₁'.trans h₂
    have hfound₂ := h₂'.trans (hserves₂.meanwhile hlater₂)
    have hanswer := hserves₂.lastEnqueued
    cases last with
    | none => exact hnew found₂ .timed hfound₂ (.inl rfl)
    | some last =>
      have hholds := hlast asked₂ last (h₁.trans h₂') hasked₂ hanswer.symm
      refine ensures_bind_engine ?_
      intro asked₃ reply₃ found₃ h₃ h₃' _ _
      split
      · refine ⟨h₁.trans (hfound₂.trans (h₃.trans h₃')), ?_⟩
        intro p hp
        cases hp
        exact hlasts _ _ _ (hlater₂.grows.trans (h₃.grows.trans h₃'.grows)) hholds
      · exact hnew found₃ .timed (hfound₂.trans (h₃.trans h₃')) (.inl rfl)

/-- When an event was bound, it is at a position of which everything holds that lasts and that held
when the position was chosen. -/
theorem ensures_addMarker {command : Option CommandRef} {recorded : Bool}
    (holds : World → CommandRef → Prop) (hlasts : ∀ w w' p, w.Grows w' → holds w p → holds w' p)
    (hposition : ∀ locked, Later system locked → Ensures t inv (fun system' result =>
      Meanwhile t locked system' ∧ ∀ p, result = .ok p → holds system'.engine p)
        (Event.choosePosition q command).run locked)
    (hevent : event.ordinal < system.cells.length) :
    Ensures t inv (fun system' result => result = .ok () →
      ∃ p, (system'.binding event).position? = some p ∧ holds system'.engine p)
      (event.addMarker q command recorded).run system := by
  refine ensures_locking hevent fun locked hlocked hheld => ?_
  refine Ensures.imp (fun system' result => holder system' event.ordinal = some t ∧
    (result = .ok () → ∃ p, (system'.binding event).position? = some p ∧ holds system'.engine p)) ?_
    fun system' result hend => ?_
  · refine ensures_bind _ (hposition locked hlocked) ?_ ?_
    · exact fun system' failure hfailed => ⟨hfailed.1.holder hheld, nofun⟩
    · intro chosen p hchosen
      have hholds := hchosen.2 p rfl
      refine ensures_bind_binding fun read hread _ => ?_
      refine ensures_bind_engine fun asked reply found h h' _ _ => ?_
      have hfound := hread.trans (h.trans h')
      have hheld' := (hchosen.1.trans hfound).holder hheld
      split
      next hsame =>
        refine ensures_log fun logged hlogged => ?_
        refine ⟨hlogged.holder hheld', fun _ => ⟨p, ?_,
          hlasts _ _ _ (hfound.trans hlogged).grows hholds⟩⟩
        rw [hlogged.binding hheld', (h.trans h').binding ((hchosen.1.trans hread).holder hheld)]
        exact hsame
      next =>
        intro asked₂ _ bound h₂ _ hserves hlater₂
        cases hserves
        refine ensures_log fun logged hlogged => ?_
        have hheld₂ := h₂.holder hheld'
        have hcell := System.cell_setCell_self (lt_of_holder hheld₂)
          { asked₂.cell event with binding := .bound p recorded }
        have hbound := (congrArg EventCell.holder hcell).trans hheld₂
        have hlater := ((hfound.trans h₂).toLater.trans hlater₂).trans hlogged.toLater
        refine ⟨hlogged.holder hbound, fun _ => ⟨p, ?_, hlasts _ _ _ hlater.grows hholds⟩⟩
        rw [hlogged.binding hbound, System.binding, hcell]
        rfl
  · refine ⟨hend.1, fun system'' hlater hbinding hok => ?_⟩
    obtain ⟨p, hposition, hholds⟩ := hend.2 hok
    exact ⟨p, by rw [hbinding, hposition], hlasts _ _ _ hlater.grows hholds⟩

/-- When an event was recorded on a queue, it is bound to a command that captures what was there
before. -/
theorem ensures_record {n : Nat} (hn : n ≤ system.engine.commands.length)
    (hevent : event.ordinal < system.cells.length) :
    Ensures t inv (fun system' result => result = .ok () →
      ∃ p, (system'.binding event).position? = some p ∧ n ≤ system'.engine.commands.length ∧
        system'.engine.Captures n q p)
      (event.record q).run system := by
  have hlasts : ∀ (w w' : World) p, w.Grows w' → n ≤ w.commands.length ∧ w.Captures n q p →
      n ≤ w'.commands.length ∧ w'.Captures n q p := by
    intro w w' p hgrows ⟨hle, hcaptures⟩
    exact ⟨Nat.le_trans hle hgrows.commands_le, hcaptures.grows hle hgrows⟩
  refine ensures_addMarker (fun w p => n ≤ w.commands.length ∧ w.Captures n q p) hlasts ?_ hevent
  intro locked hlocked
  have hle := Nat.le_trans hn hlocked.grows.commands_le
  refine ensures_currentPosition _ hlasts ?_ ?_
  · intro asked found h h' timing c _ hc
    have hle' := Nat.le_trans hle (h.grows.trans h'.grows).commands_le
    have hgrows : found.engine.Grows (found.engine.enqueueMarker q ⟨timing, []⟩).state :=
      .of_called (.submit _ rfl nofun nofun)
    exact ⟨Nat.le_trans hle' hgrows.commands_le, World.captures_submit hle' hc⟩
  · intro asked c h _ hlast
    have hle' := Nat.le_trans hle h.grows.commands_le
    exact ⟨hle', h.world.captures_last hle' hlast⟩

/-! ## Looking and waiting -/

/-- A command that is said to be ready has run. -/
theorem ensures_isReady {c : CommandRef} :
    Ensures t inv (fun system' ready => Meanwhile t system system' ∧
      (ready = true → system'.engine.status c = .complete)) (isReady c) system := by
  refine ensures_engine fun asked₁ reply₁ found₁ h₁ h₁' hserve₁ hstate₁ => ?_
  cases hserve₁
  have hfound₁ := h₁.trans h₁'
  split
  next hcomplete => exact ⟨hfound₁, fun _ => h₁'.grows.status hcomplete⟩
  next =>
    refine ensures_engine fun asked₂ reply₂ found₂ h₂ h₂' _ _ => ?_
    refine ensures_engine fun asked₃ reply₃ found₃ h₃ h₃' hserve₃ hstate₃ => ?_
    cases hserve₃
    refine ⟨(hfound₁.trans (h₂.trans h₂')).trans (h₃.trans h₃'), fun hready => ?_⟩
    exact h₃'.grows.status (by simpa using hready)

section Bound

-- what the event is bound to throughout
variable {binding : Binding}

/-- A query says that an event is ready only if its position has run. -/
theorem ensures_query (hevent : event.ordinal < system.cells.length) :
    Ensures t (fun system' => system'.binding event = binding)
      (fun system' status => status = .ready →
        ∀ c ∈ binding.position?, system'.engine.status c = .complete) event.query system := by
  refine ensures_locking hevent fun locked hlocked hheld => ?_
  refine Ensures.imp (fun system' status => Meanwhile t locked system' ∧
    (status = .ready → ∀ c ∈ binding.position?, system'.engine.status c = .complete)) ?_
    fun system' status hend => ?_
  · refine ensures_binding fun read hread hbinding => ?_
    rw [hbinding]
    split
    next hnone =>
      refine ⟨hread, fun _ c hc => ?_⟩
      rw [hnone] at hc
      cases hc
    next c hbound =>
      refine ensures_isReady.andThen fun system' ready hend => ⟨hread.trans hend.1, ?_⟩
      intro hready d hd
      rw [hbound] at hd
      cases hd
      cases ready with
      | false => cases hready
      | true => exact hend.2 rfl
  · refine ⟨hend.1.holder hheld, fun system'' hlater _ hready c hc => ?_⟩
    exact hlater.grows.status (hend.2 hready c hc)

theorem ensures_position? (hevent : event.ordinal < system.cells.length) :
    Ensures t (fun system' => system'.binding event = binding)
      (fun _ position => position = binding.position?) event.position? system := by
  refine ensures_locking hevent fun locked hlocked hheld => ?_
  refine ensures_binding fun read hread hbinding => ⟨hread.holder hheld, fun _ _ _ => ?_⟩
  rw [hbinding]

/-- Whoever waits for an event waits until its position has run. -/
theorem ensures_synchronize (hevent : event.ordinal < system.cells.length) :
    Ensures t (fun system' => system'.binding event = binding)
      (fun system' _ => ∀ c ∈ binding.position?, system'.engine.status c = .complete)
      event.synchronize system := by
  refine (ensures_position? hevent).andThen fun system' position hposition => ?_
  subst hposition
  split
  next hnone =>
    intro c hc
    rw [hnone] at hc
    cases hc
  next c hbound =>
    refine ensures_request fun asked reply found h h' hserve hstate d hd => ?_
    rw [hbound] at hd
    cases hd
    refine h'.grows.status ?_
    rw [World.serve] at hserve
    split at hserve
    next hcomplete => exact hcomplete
    next => cases hserve

end Bound

/-! ## Calls that returned -/

namespace Machine

variable {s s' : Machine} {history : History} {c : CommandRef}

/-- A queue that takes part in a call exists. -/
theorem lt_of_handles {w : World} (h : 0 < (w.queue q).handles) : q < w.queues.length := by
  rcases Nat.lt_or_ge q w.queues.length with hlt | hge
  · exact hlt
  · rw [w.queue_of_le hge] at h
    exact absurd h (Nat.lt_irrefl 0)

theorem covers_of_streamWait (hsound : s.Sound)
    (h : Returns t (.streamWait event q) s history (.ok ()) s')
    (hbound : (s'.system.binding event).position? = some c) : s'.world.Covers q c := by
  have hallowed := h.allows.2
  have hevent := hallowed.events event (by simp [Call.events])
  have hq := lt_of_handles (hallowed.queues q (by simp [Call.queues]))
  exact h.ensures hsound (fun _ => True) (fun _ _ _ _ _ => trivial)
    (ensures_streamWait hevent hq) rfl c hbound

theorem captures_of_record (hsound : s.Sound)
    (h : Returns t (.record event q) s history (.ok ()) s') :
    ∃ p, (s'.system.binding event).position? = some p ∧
      s'.world.Captures s.world.commands.length q p := by
  have hevent := h.allows.2.events event (by simp [Call.events])
  obtain ⟨p, hposition, -, hcaptures⟩ :=
    h.ensures hsound (fun _ => True) (fun _ _ _ _ _ => trivial)
      (ensures_record (Nat.le_refl _) hevent) rfl
  exact ⟨p, hposition, hcaptures⟩

end Machine

end SyncPoint.Host
