import SyncPoint.Proofs.Machine.Closing
import SyncPoint.Proofs.Machine.Results

/-!
# Calls that rely on others

`Relies` is what holds at the end of a program if others keep to a relation between its requests, as
opposed to what holds whatever they do (`Ensures`).  Here they keep from enqueuing on one queue
(`Steady`): then that queue's current end is decided by what the queue was when the call began
(`TakesEnd`), and recording binds the event to just that (`Machine.takesEnd_of_returns`).
-/

namespace SyncPoint.Host

variable {α β : Type} {t : ThreadId}

/-! ## Relying on others -/

/-- `post` holds of the result and of the state in which the program has it, if others do no more
between its requests than `rely` allows. -/
def Relies (t : ThreadId) (rely : System World → System World → Prop)
    (post : System World → α → Prop) : Program α → System World → Prop
  | .done value, system => post system value
  | .ask request next, system => ∀ asked answer system', rely system asked →
      Serves t asked request answer system' → Later asked system' →
        Relies t rely post (next answer) system'

section Relies

variable {rely : System World → System World → Prop} {post : System World → α → Prop}
  {mid : System World → β → Prop} {system : System World}

theorem Relies.andThen {program : Program β} {next : β → Program α}
    (h : Relies t rely mid program system)
    (hnext : ∀ system' value, mid system' value → Relies t rely post (next value) system') :
    Relies t rely post (program.andThen next) system := by
  induction program generalizing system with
  | done value => exact hnext system value h
  | ask request rest ih =>
    intro asked answer system' hrely hserves hlater
    exact ih answer (h asked answer system' hrely hserves hlater)

theorem relies_bind {post : System World → Except Failure α → Prop}
    (mid : System World → Except Failure β → Prop) {operation : Operation β}
    {next : β → Operation α} (h : Relies t rely mid operation.run system)
    (hfailed : ∀ system' failure, mid system' (.error failure) → post system' (.error failure))
    (hnext : ∀ system' value, mid system' (.ok value) →
      Relies t rely post (next value).run system') :
    Relies t rely post (operation >>= next).run system := by
  refine h.andThen fun system' result hmid => ?_
  cases result with
  | error failure => exact hfailed system' failure hmid
  | ok value => exact hnext system' value hmid

end Relies

namespace Machine

/-- A call has brought about what its program does, if others kept to what it relies on. -/
theorem Performs.relies {s s' : Machine} {call : Call} {history : History} {value : call.Result}
    {rely : System World → System World → Prop} {post : System World → call.Result → Prop}
    (h : Performs t call s history value s') (hsound : s.Sound)
    (hrefl : ∀ x : Machine, x.Sound → rely x.system x.system)
    (htrans : ∀ {a b c}, rely a b → rely b c → rely a c)
    (hothers : ∀ before l after x y, history = before ++ l :: after → Run s before x →
      Step x l y → l.thread? ≠ some t → rely x.system y.system)
    {rest : Program call.Result} {queues : List QueueRef}
    (htask : s.tasks t = some ⟨call, rest, queues⟩) (hrest : Relies t rely post rest s.system) :
    post s'.system value := by
  induction h generalizing rest queues with
  | done hdone =>
    rw [htask] at hdone
    cases hdone
    exact hrest
  | @step s s₁ s₂ l history value hbusy hstep hperforms ih =>
    have hothers' : ∀ before m after x y, history = before ++ m :: after → Run s₁ before x →
        Step x m y → m.thread? ≠ some t → rely x.system y.system := by
      intro before m after x y hsplit hrun
      exact hothers (l :: before) m after x y (by rw [hsplit]; rfl) (hstep.run.trans hrun)
    have hsound' := hsound.of_step hstep
    obtain ⟨request, next, rfl⟩ : ∃ request next, rest = .ask request next := by
      obtain ⟨task, htask', -, hunfinished⟩ := hbusy
      rw [htask] at htask'
      cases htask'
      exact hunfinished
    by_cases hmine : l.thread? = some t
    · obtain rfl := eq_ask_of_step hstep hmine htask
      cases hstep with
      | @ask _ call' _ next' queues' answer system htask' hserve =>
        rw [htask] at htask'
        cases htask'
        refine ih hsound' hothers' (tasks_withTask_self ..) ?_
        exact hrest _ answer _ (hrefl s hsound) (serves_of_serve hserve)
          ⟨hsound'.world, hsound'.filed, hsound.grows_of_step (.ask htask hserve),
            (serves_of_serve hserve).cells_le⟩
    · have hsame := (hsound.meanwhile hstep hmine).1
      refine ih hsound' hothers' (hsame.trans htask) ?_
      have hfirst := hothers [] l history s s₁ rfl .refl hstep hmine
      exact fun asked answer system' hrely => hrest asked answer system' (htrans hfirst hrely)

end Machine

/-! ## Nothing is enqueued -/

namespace World

variable {w w' w'' : World} {q : QueueRef} {c : CommandRef}

theorem Grows.kind_command (h : w.Grows w') (hc : c < w.commands.length) :
    (w'.command c).kind = (w.command c).kind := by
  rw [h.command c hc]

/-- The one world is a later state of the other, where the queue is still shut down if it was. -/
structure Onward (q : QueueRef) (w w' : World) : Prop where
  sound : w'.Sound
  grows : w.Grows w'
  refuses : (w.queue q).accepting = false → (w'.queue q).accepting = false

/-- From the one world to the other, nothing was enqueued on the queue. -/
structure Still (q : QueueRef) (w w' : World) : Prop extends w.Onward q w' where
  accepted : w'.accepted q = w.accepted q

theorem Still.refl (h : w.Sound) : w.Still q w := ⟨⟨h, .refl w, id⟩, rfl⟩

theorem Still.trans (h : w.Still q w') (h' : w'.Still q w'') : w.Still q w'' :=
  ⟨⟨h'.sound, h.grows.trans h'.grows, fun hrefuses => h'.refuses (h.refuses hrefuses)⟩,
    h'.accepted.trans h.accepted⟩

theorem Still.last (h : w.Still q w') (hw : w.Sound) :
    (w'.queue q).last = (w.queue q).last := by
  rw [hw.newest, h.sound.newest, h.accepted]

/-- What recording would take for the queue's end is the same. -/
theorem Still.reusable (h : w.Still q w') (hw : w.Sound) (hq : q < w.queues.length) :
    w'.reusable? q = w.reusable? q := by
  rw [reusable?, reusable?, h.last hw, (h.grows.queue q hq).2.1]
  cases hlast : (w.queue q).last with
  | none => rfl
  | some c =>
    have hkind := h.grows.kind_command (hw.captures_last (Nat.zero_le _) hlast).1
    simp only [Option.filter, hkind]

/-- A marker that waits for nothing. -/
structure BareMarker (w : World) (c : CommandRef) (timed : Bool) : Prop where
  kind : (w.command c).kind = .marker
  timed : (w.command c).timed = timed
  waitList : (w.command c).waitList = []

theorem BareMarker.grows {timed : Bool} (h : w.BareMarker c timed) (hgrows : w.Grows w')
    (hc : c < w.commands.length) : w'.BareMarker c timed := by
  have hsame := hgrows.command c hc
  exact ⟨by rw [hsame]; exact h.kind, by rw [hsame]; exact h.timed, by rw [hsame]; exact h.waitList⟩

/-- What comes of asking for the current end of a queue, where nobody else enqueues anything there:
`w` is the world before and `w'` the one after. -/
inductive TakesEnd (q : QueueRef) (w w' : World) : Except Failure CommandRef → Prop
  /-- The newest command serves as the end. -/
  | reused {c : CommandRef} (hreused : w.reusable? q = some c)
      (haccepted : w'.accepted q = w.accepted q) : TakesEnd q w w' (.ok c)
  | marked {c : CommandRef} (hnone : w.reusable? q = none)
      (hopen : (w.queue q).accepting = true) (haccepted : w'.accepted q = w.accepted q ++ [c])
      (hmarker : w'.BareMarker c (w.queue q).profiling) : TakesEnd q w w' (.ok c)
  | refused (hnone : w.reusable? q = none) (haccepted : w'.accepted q = w.accepted q)
      (hrefuses : (w'.queue q).accepting = false) : TakesEnd q w w' (.error .queueShutDown)

theorem TakesEnd.still {chosen : Except Failure CommandRef} (h : TakesEnd q w w' chosen)
    (hstill : w'.Still q w'') : TakesEnd q w w'' chosen := by
  cases h with
  | reused hreused haccepted => exact .reused hreused (hstill.accepted.trans haccepted)
  | marked hnone hopen haccepted hmarker =>
    refine .marked hnone hopen (hstill.accepted.trans haccepted) (hmarker.grows hstill.grows ?_)
    exact (mem_accepted.1 (haccepted ▸ List.mem_append_right _ List.mem_cons_self)).1
  | refused hnone haccepted hrefuses =>
    exact .refused hnone (hstill.accepted.trans haccepted) (hstill.refuses hrefuses)

end World

/-- Meanwhile nothing was enqueued on the queue. -/
def Steady (t : ThreadId) (q : QueueRef) (a b : System World) : Prop :=
  Meanwhile t a b ∧ a.engine.Still q b.engine

section Steady

variable {q : QueueRef} {a b c system : System World} {event : Event}

theorem Steady.trans (h : Steady t q a b) (h' : Steady t q b c) : Steady t q a c :=
  ⟨h.1.trans h'.1, h.2.trans h'.2⟩

/-- A request that is not for a marker leaves the queues as they are. -/
theorem Steady.ask {request : EngineRequest} {answer : (Request.engine request).Answer}
    (h : Steady t q a b) (hserves : Serves t b (.engine request) answer c) (hlater : Later b c)
    (hrequest : ∀ q marker, request ≠ .enqueueMarker q marker) : Steady t q a c := by
  have hsame : c.engine = b.engine := by
    cases hserves with
    | engine hserve =>
      rcases World.state_of_serve hserve with hsame | ⟨q, marker, rfl, -⟩
      · exact hsame
      · exact absurd rfl (hrequest q marker)
  refine ⟨h.1.trans (hserves.meanwhile hlater), ?_⟩
  rw [hsame]
  exact h.2

/-! ## Asking for the current end -/

section End

variable {w : World} (hw : w.Sound) (hq : q < w.queues.length)
include hq

theorem relies_marker {timing : MarkerTiming} (hstill : w.Still q b.engine)
    (hmeanwhile : Meanwhile t system b) (hnone : w.reusable? q = none)
    (htiming : timing = .forProfiling (w.queue q).profiling) :
    Relies t (Steady t q) (fun system' chosen => Meanwhile t system system' ∧
      w.TakesEnd q system'.engine chosen) (Event.enqueueMarker q timing).run b := by
  intro asked answer found hsteady hserves hlater
  obtain ⟨hanswer, hfound⟩ := hserves.marker
  have hasked := hstill.trans hsteady.2
  refine ⟨(hmeanwhile.trans hsteady.1).trans (hserves.meanwhile hlater), ?_⟩
  show w.TakesEnd q found.engine answer
  rw [hfound, hanswer, World.enqueueMarker]
  cases haccepting : (asked.engine.queue q).accepting with
  | false =>
    rw [World.submit_of_not_accepting haccepting]
    exact .refused hnone hasked.accepted haccepting
  | true =>
    have htakes : asked.engine.takes q = true := hsteady.1.world.takes haccepting
    rw [World.value_submit htakes]
    refine .marked hnone ?_ ?_ ?_
    · cases hopen : (w.queue q).accepting with
      | true => rfl
      | false => exact absurd (hasked.refuses hopen) (by simp [haccepting])
    · rw [World.accepted_submit_self htakes, hasked.accepted]
    · refine ⟨by rw [World.command_submit_self htakes], ?_,
        by rw [World.command_submit_self htakes]⟩
      rw [World.command_submit_self htakes, htiming, ← (hasked.grows.queue q hq).2.1]
      cases (asked.engine.queue q).profiling <;> rfl

include hw

theorem relies_currentPosition (hstill : w.Still q system.engine) :
    Relies t (Steady t q) (fun system' chosen => Meanwhile t system system' ∧
      w.TakesEnd q system'.engine chosen) (Event.currentPosition q).run system := by
  intro asked₁ profiling found₁ h₁ hserves₁ hlater₁
  have hfound₁ := h₁.ask hserves₁ hlater₁ (by simp)
  have hprofiling : (w.queue q).profiling = profiling := by
    rw [hserves₁.profiling, ((hstill.trans h₁.2).grows.queue q hq).2.1]
  cases profiling with
  | false =>
    refine relies_marker hq (hstill.trans hfound₁.2) hfound₁.1 ?_ (by rw [hprofiling]; rfl)
    simp [World.reusable?, hprofiling]
  | true =>
    have htimed : MarkerTiming.timed = .forProfiling (w.queue q).profiling := by
      rw [hprofiling]
      rfl
    intro asked₂ last found₂ h₂ hserves₂ hlater₂
    have hasked₂ := hfound₁.trans h₂
    have hfound₂ := hasked₂.ask hserves₂ hlater₂ (by simp)
    have hlast : (w.queue q).last = last := by
      rw [hserves₂.lastEnqueued, (hstill.trans hasked₂.2).last hw]
    cases last with
    | none =>
      refine relies_marker hq (hstill.trans hfound₂.2) hfound₂.1 ?_ htimed
      simp [World.reusable?, hlast]
    | some last =>
      intro asked₃ visible found₃ h₃ hserves₃ hlater₃
      have hasked₃ := hfound₂.trans h₃
      have hfound₃ := hasked₃.ask hserves₃ hlater₃ (by simp)
      have hend := hstill.trans hfound₃.2
      have hvisible := hserves₃.userVisible
      rw [(hstill.trans hasked₃.2).grows.kind_command
        (hw.captures_last (Nat.zero_le _) hlast).1] at hvisible
      cases visible with
      | true =>
        refine ⟨hfound₃.1, .reused ?_ hend.accepted⟩
        simp [World.reusable?, hprofiling, hlast, Option.filter, of_decide_eq_true hvisible.symm]
      | false =>
        refine relies_marker hq hend hfound₃.1 ?_ htimed
        have hbarrier := of_decide_eq_false hvisible.symm
        simp [World.reusable?, hprofiling, hlast, Option.filter, not_not.1 hbarrier]

end End

/-! ## Recording -/

/-- Between taking the lock of an event and giving it back, the event's cell is the thread's own. -/
theorem relies_locking {body : Program α} {post : System World → α → Prop}
    (hevent : event.ordinal < system.cells.length)
    (hbody : ∀ locked, Steady t q system locked → holder locked event.ordinal = some t →
      Relies t (Steady t q) (fun system' value => holder system' event.ordinal = some t ∧
        ∀ system'', system'.engine.Still q system''.engine →
          system''.binding event = system'.binding event → post system'' value) body locked) :
    Relies t (Steady t q) post (event.locking body) system := by
  intro asked answer locked hsteady hserves hlater
  have hkept := hserves.meanwhile_lock hlater
  have hlt := Nat.lt_of_lt_of_le hevent hsteady.1.cells_le
  cases hserves with
  | lock =>
    show Relies t _ post (body.andThen _) _
    have hlocked : Steady t q system _ := ⟨hsteady.1.trans hkept, hsteady.2⟩
    refine (hbody _ hlocked (holder_setCell_self hlt _)).andThen fun system' value hend => ?_
    intro asked' answer' system'' hsteady' hserves' hlater'
    cases hserves'
    refine hend.2 _ hsteady'.2 ?_
    rw [← hsteady'.1.binding hend.1]
    rcases cell_setCell asked' event { asked'.cell event with holder := none } event with
      hsame | ⟨-, hsame⟩
    · exact congrArg EventCell.binding hsame
    · rw [System.binding, hsame]
      rfl

/-- Recording binds the event to what is taken for the queue's end. -/
theorem relies_record (hevent : event.ordinal < system.cells.length)
    (hworld : system.engine.Sound) (hq : q < system.engine.queues.length) :
    Relies t (Steady t q) (fun system' result => ∃ chosen,
      system.engine.TakesEnd q system'.engine chosen ∧ result = chosen.map (fun _ => ()) ∧
        ∀ c, chosen = .ok c → (system'.binding event).position? = some c)
      (event.record q).run system := by
  refine relies_locking hevent fun locked hlocked hheld => ?_
  refine relies_bind _ (relies_currentPosition hworld hq hlocked.2) ?_ ?_
  · rintro system' failure ⟨hmeanwhile, hend⟩
    refine ⟨hmeanwhile.holder hheld, fun system'' hstill _ => ⟨_, hend.still hstill, rfl, nofun⟩⟩
  · rintro system' position ⟨hmeanwhile, hend⟩
    have hpost : ∀ found : System World, holder found event.ordinal = some t →
        system'.engine.Still q found.engine → (found.binding event).position? = some position →
          holder found event.ordinal = some t ∧ ∀ later : System World,
            found.engine.Still q later.engine → later.binding event = found.binding event →
              ∃ chosen, system.engine.TakesEnd q later.engine chosen ∧
                (.ok () : Except Failure Unit) = chosen.map (fun _ => ()) ∧
                  ∀ c, chosen = .ok c → (later.binding event).position? = some c := by
      intro found hheld' hstill hposition
      refine ⟨hheld', fun later hlater hbinding => ⟨_, (hend.still hstill).still hlater, rfl, ?_⟩⟩
      rintro c ⟨⟩
      rw [hbinding, hposition]
    intro read current found₁ hread hserves₁ _
    cases hserves₁
    intro asked₂ target found₂ h₂ hserves₂ hlater₂
    have hfound₂ := h₂.ask hserves₂ hlater₂ nofun
    have hheld' := hread.1.holder (hmeanwhile.holder hheld)
    show Relies t _ _ (ExceptT.run (if _ then _ else _)) found₂
    split
    next hsame =>
      intro asked₃ _ logged h₃ hserves₃ hlater₃
      have hasked₃ := hfound₂.trans h₃
      cases hserves₃
      refine hpost _ (hasked₃.1.holder hheld') (hread.2.trans hasked₃.2) ?_
      rw [← hsame]
      exact congrArg Binding.position? (hasked₃.1.binding hheld')
    next =>
      intro asked₃ _ bound h₃ hserves₃ hlater₃ asked₄ _ logged h₄ hserves₄ hlater₄
      have hasked₃ := hfound₂.trans h₃
      have hmine := hasked₃.1.holder hheld'
      have hcell := System.cell_setCell_self (lt_of_holder hmine)
        { asked₃.cell event with binding := .bound position true }
      cases hserves₃
      cases hserves₄
      have hbound := (congrArg EventCell.holder hcell).trans hmine
      refine hpost _ (h₄.1.holder hbound) ((hread.2.trans hasked₃.2).trans h₄.2) ?_
      exact congrArg Binding.position?
        ((h₄.1.binding hbound).trans (congrArg EventCell.binding hcell))

end Steady

namespace Machine

variable {s s' : Machine} {h : History} {l : Happening} {q : QueueRef} {event : Event}
  {result : Except Failure Unit}

/-- A step in which nothing is enqueued on a queue leaves the queue still. -/
theorem Step.still (hstep : Step s l s') (hsound : s.Sound) (hq : q < s.world.queues.length)
    (hnone : ∀ kind, s.taking? l ≠ some ⟨q, kind⟩) : s.world.Still q s'.world :=
  ⟨⟨(hsound.of_step hstep).world, hsound.grows_of_step hstep, hstep.not_accepting hq⟩,
    (hsound.accepted_of_not_taken hstep hnone).1⟩

theorem Run.onward (hrun : Run s h s') (hsound : s.Sound) (hq : q < s.world.queues.length) :
    s.world.Onward q s'.world :=
  ⟨(hsound.of_run hrun).world, hsound.grows hrun, hrun.not_accepting hsound hq⟩

/-- What the queue takes in these steps it takes from the thread. -/
def TakesFrom (t : ThreadId) (q : QueueRef) (s : Machine) (h : History) : Prop :=
  ∀ before l after x kind, h = before ++ l :: after → Run s before x →
    x.taking? l = some ⟨q, kind⟩ → l.thread? = some t

/-- A call to record for which nobody else enqueues anything on the queue. -/
theorem takesEnd_of_returns (hsound : s.Sound)
    (hreturns : Returns t (.record event q) s h result s') (halone : TakesFrom t q s h) :
    ∃ chosen, s.world.TakesEnd q s'.world chosen ∧ result = chosen.map (fun _ => ()) ∧
      ∀ c, chosen = .ok c → (s'.system.binding event).position? = some c := by
  obtain ⟨-, hallowed⟩ := hreturns.allows
  obtain ⟨rest, rfl, hfirst, hperforms⟩ := hreturns
  have hevent := hallowed.events event List.mem_cons_self
  have hq := lt_of_handles (hallowed.queues q List.mem_cons_self)
  refine hperforms.relies (hsound.of_step hfirst) ?_ ?_ ?_
    (tasks_withTask_self ..) (relies_record hevent hsound.world hq)
  · exact fun x hx => ⟨.refl hx.world hx.filed, .refl hx.world⟩
  · exact fun h h' => h.trans h'
  · intro before l after x y hsplit hrun hstep hother
    have hx := (hsound.of_step hfirst).of_run hrun
    refine ⟨(hx.meanwhile hstep hother).2, hstep.still hx ?_ fun kind htaking => hother ?_⟩
    · exact Nat.lt_of_lt_of_le hq (hsound.grows (hfirst.run.trans hrun)).queues_le
    · exact halone (.enter t (.record event q) :: before) l after x kind (by rw [hsplit]; rfl)
        (hfirst.run.trans hrun) htaking

end Machine

end SyncPoint.Host
