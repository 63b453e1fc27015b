import SyncPoint.Proofs.Machine.Binders
import SyncPoint.Proofs.Machine.Concluding
import SyncPoint.Proofs.Machine.Results
import SyncPoint.Proofs.RecordedElapsed

/-!
# Bindings are stable and readiness is permanent

Only a call that is to bind an event changes what it is bound to, and whatever was found of a
command that has run stays so.  What a query or a measurement found thus holds in all later states
in which the events are bound as they were found, with their queues shut down or gone
(`Machine.bindings_stable`).
-/

namespace SyncPoint.Host

variable {α β : Type} {t : ThreadId} {inv : System World → Prop} {system : System World}
  {event a b : Event} {c d : CommandRef}

/-! ## Queries -/

/-- A query that says that an event is ready leaves it at a position that has run. -/
theorem ensures_query_leaves (hevent : event.ordinal < system.cells.length) :
    Ensures t inv (fun system' status => status = .ready →
      ∀ c ∈ (system'.binding event).position?, system'.engine.status c = .complete)
      event.query system := by
  refine ensures_locking hevent fun locked _ hheld => ?_
  refine Ensures.imp (fun system' status => Meanwhile t locked system' ∧ (status = .ready →
    ∀ c ∈ (locked.binding event).position?, system'.engine.status c = .complete)) ?_ ?_
  · refine ensures_binding fun read hread _ => ?_
    rw [hread.binding hheld]
    split
    next hnone =>
      refine ⟨hread, fun _ c hc => ?_⟩
      rw [hnone] at hc
      cases hc
    next c hbound =>
      refine ensures_isReady.andThen ?_
      rintro system' ready ⟨hlater, hcomplete⟩
      refine ⟨hread.trans hlater, fun hready d hd => ?_⟩
      rw [hbound] at hd
      cases hd
      cases ready with
      | false => cases hready
      | true => exact hcomplete rfl
  · rintro system' status ⟨hlater, hcomplete⟩
    refine ⟨hlater.holder hheld, fun system'' hlater' hbinding hready c hc => ?_⟩
    rw [hbinding, hlater.binding hheld] at hc
    exact hlater'.grows.status (hcomplete hready c hc)

/-- An event whose position has run whenever it is looked at is ready. -/
theorem ensures_query_ready (hevent : event.ordinal < system.cells.length)
    (hdone : ∀ x, inv x → ∀ c ∈ (x.binding event).position?, x.engine.status c = .complete) :
    Ensures t inv (fun _ status => status = .ready) event.query system := by
  refine ensures_locking_value hevent fun locked _ _ => ?_
  refine ensures_binding fun read _ hinv => ?_
  split
  next => rfl
  next c hbound =>
    have hcomplete := hdone read hinv c hbound
    refine ensures_isReady_at.andThen ?_
    rintro system' ready ⟨x, hlater, -, -, hstatus⟩
    rw [hlater.grows.status hcomplete] at hstatus
    cases ready with
    | false => cases hstatus
    | true => rfl

/-! ## What a measurement reads -/

/-- What the program comes to has to do, by `post`, with the state in which it first read what the
event is bound to. -/
def Finds (t : ThreadId) (inv : System World → Prop) (event : Event)
    (post : System World → System World → α → Prop) : Program α → System World → Prop
  | .done _, _ => True
  | .ask request next, system => ∀ asked, Meanwhile t system asked →
      (request = .binding event → Ensures t inv (post asked) (.ask request next) asked) ∧
        (request ≠ .binding event → ∀ answer system', Serves t asked request answer system' →
          Later asked system' → Finds t inv event post (next answer) system')

section Finds

variable {post : System World → System World → α → Prop}
  {post' : System World → System World → β → Prop}

/-- Others may go on before the program does. -/
theorem Finds.meanwhile {program : Program α} {later : System World}
    (h : Finds t inv event post program system) (hmeanwhile : Meanwhile t system later) :
    Finds t inv event post program later := by
  cases program with
  | done value => trivial
  | ask request next => exact fun asked hasked => h asked (hmeanwhile.trans hasked)

theorem Finds.andThen {program : Program β} {next : β → Program α}
    (h : Finds t inv event post' program system)
    (hpost : ∀ asked system' value, post' asked system' value →
      Ensures t inv (post asked) (next value) system')
    (hnext : ∀ system' value, Finds t inv event post (next value) system') :
    Finds t inv event post (program.andThen next) system := by
  induction program generalizing system with
  | done value => exact hnext system value
  | ask request rest ih =>
    intro asked hmeanwhile
    obtain ⟨hreads, hrest⟩ := h asked hmeanwhile
    refine ⟨fun hrequest => (hreads hrequest).andThen (hpost asked), fun hother => ?_⟩
    intro answer system' hserves hlater
    exact ih answer (hrest hother answer system' hserves hlater)

theorem finds_locking {other : Event} {body : Program α}
    (hpost : ∀ asked system' system'' value, Later system' system'' →
      post asked system' value → post asked system'' value)
    (hevent : other.ordinal < system.cells.length)
    (hbody : ∀ locked, Meanwhile t system locked → holder locked other.ordinal = some t →
      Finds t inv event post body locked) :
    Finds t inv event post (other.locking body) system := by
  intro asked hmeanwhile
  refine ⟨nofun, fun _ answer locked hserves hlater => ?_⟩
  have hlocked := hmeanwhile.trans (hserves.meanwhile_lock hlater)
  have hlt := Nat.lt_of_lt_of_le hevent hmeanwhile.cells_le
  cases hserves with
  | lock =>
    show Finds t inv event post (body.andThen _) _
    refine (hbody _ hlocked (holder_setCell_self hlt _)).andThen ?_ ?_
    · intro asked' system' value hvalue _ _ system'' hmeanwhile' _ _ hlater'
      exact hpost asked' _ _ value (hmeanwhile'.toLater.trans hlater') hvalue
    · exact fun _ _ _ _ => ⟨nofun, fun _ _ _ _ _ => trivial⟩

theorem finds_guardingBoth {operation : Operation α}
    {post : System World → System World → Except Failure α → Prop}
    (hpost : ∀ asked system' system'' value, Later system' system'' →
      post asked system' value → post asked system'' value)
    (ha : a.ordinal < system.cells.length) (hb : b.ordinal < system.cells.length)
    (hbody : ∀ locked, holder locked a.ordinal = some t → holder locked b.ordinal = some t →
      Finds t inv event post operation.run locked) :
    Finds t inv event post (Event.guardingBoth a b operation).run system := by
  unfold Event.guardingBoth
  split
  · refine finds_locking hpost ha fun locked hlocked hheld => ?_
    refine finds_locking hpost (Nat.lt_of_lt_of_le hb hlocked.cells_le) fun locked' hlocked' => ?_
    exact hbody locked' (hlocked'.holder hheld)
  · refine finds_locking hpost hb fun locked hlocked hheld => ?_
    refine finds_locking hpost (Nat.lt_of_lt_of_le ha hlocked.cells_le) ?_
    exact fun locked' hlocked' hheld' => hbody locked' hheld' (hlocked'.holder hheld)

end Finds

/-- A measurement of two events ends with what it found when it read the bindings. -/
theorem finds_elapsedTime (hinv : ∀ system, inv system → system.engine.Timed)
    (ha : a.ordinal < system.cells.length) (hb : b.ordinal < system.cells.length)
    (hne : a.ordinal ≠ b.ordinal) :
    Finds t inv a (fun asked system' result => ∃ nanos,
      Outcome inv system'.engine a b (asked.binding a) (asked.binding b) nanos ∧
        result = nanos.map Elapsed.millis)
      (a.elapsedTime b).run system := by
  have hnanos : Finds t inv a (fun asked system' result =>
      Outcome inv system'.engine a b (asked.binding a) (asked.binding b) result)
      (a.elapsedNanos b).run system := by
    rw [Event.elapsedNanos, if_neg hne, Event.nanosToOther_eq]
    refine finds_guardingBoth (fun _ _ _ _ hlater => Outcome.grows hlater.grows) ha hb ?_
    intro locked hheld hheld' read hread
    refine ⟨fun _ => ?_, fun hother => absurd rfl hother⟩
    refine (ensures_nanosHeld hinv (hread.holder hheld)).imp _ ?_
    rintro system' result ⟨-, x, hx, -, houtcome⟩
    rw [hx.binding (hread.holder hheld), hx.binding (hread.holder hheld')] at houtcome
    exact houtcome
  refine hnanos.andThen ?_ ?_
  · intro asked system' result houtcome
    cases result with
    | error failure => exact ⟨.error failure, houtcome, rfl⟩
    | ok nanos => exact ⟨.ok nanos, houtcome, rfl⟩
  · intro system' result
    cases result <;> trivial

namespace Machine

variable {s s' x y : Machine} {h h' before after : History} {call : Call}

/-- A call that has its result has found what it read. -/
theorem Performs.finds {value : call.Result} (hperforms : Performs t call s h value y)
    (hsound : s.Sound)
    (hinv : ∀ before after x, h = before ++ after → Run s before x → inv x.system)
    {rest : Program call.Result} {queues : List QueueRef}
    (htask : s.tasks t = some ⟨call, rest, queues⟩)
    {post : System World → System World → call.Result → Prop}
    (hfinds : Finds t inv event post rest s.system)
    (hsplit : h = before ++ .ask t (.binding event) :: after)
    (hfirst : .ask t (.binding event) ∉ before) (hrun : Run s before x) :
    post x.system y.system value := by
  induction hperforms generalizing before rest queues with
  | done => simp at hsplit
  | @step s s₁ y l h value hbusy hstep hrest ih =>
    obtain ⟨request, next, rfl⟩ : ∃ request next, rest = .ask request next := by
      obtain ⟨task, htask', -, hunfinished⟩ := hbusy
      cases htask.symm.trans htask'
      exact hunfinished
    cases before with
    | nil =>
      cases hsplit
      obtain rfl := hrun.eq_of_nil
      have hreads := (hfinds x.system (.refl hsound.world hsound.filed)).1
      cases eq_ask_of_step hstep rfl htask
      exact (Performs.step hbusy hstep hrest).ensures hsound hinv htask (hreads rfl)
    | cons m before =>
      cases hsplit
      obtain ⟨z, hfirst', hbefore⟩ := hrun.uncons
      obtain rfl := hfirst'.unique hstep
      have hsound₁ := hsound.of_step hstep
      have hinv₁ : ∀ before' after' x, before ++ .ask t (.binding event) :: after =
          before' ++ after' → Run z before' x → inv x.system := by
        intro before' after' x hsplit' hrun'
        exact hinv (l :: before') after' x (congrArg (l :: ·) hsplit') (hstep.run.trans hrun')
      have hfirst₁ : .ask t (.binding event) ∉ before :=
        fun hmem => hfirst (List.mem_cons_of_mem _ hmem)
      by_cases hmine : l.thread? = some t
      · obtain rfl := eq_ask_of_step hstep hmine htask
        cases hstep with
        | @ask _ call' _ next' queues' answer system htask' hserve =>
          cases htask.symm.trans htask'
          have hserves := serves_of_serve hserve
          have hother : request ≠ .binding event := by
            rintro rfl
            exact hfirst List.mem_cons_self
          refine ih hsound₁ hinv₁ (tasks_withTask_self ..) ?_ rfl hfirst₁ hbefore
          exact (hfinds s.system (.refl hsound.world hsound.filed)).2 hother answer system hserves
            ⟨hsound₁.world, hsound₁.filed, hsound.grows_of_step (.ask htask hserve),
              hserves.cells_le⟩
      · obtain ⟨hsame, hmeanwhile⟩ := hsound.meanwhile hstep hmine
        exact ih hsound₁ hinv₁ (hsame.trans htask) (hfinds.meanwhile hmeanwhile) rfl hfirst₁
          hbefore

/-- A measurement ends with what it found in the state in which it first read a binding. -/
theorem outcome_of_reading (hs : s.Reachable) (hne : a.ordinal ≠ b.ordinal)
    {result : Except Failure Single} (hreturns : Returns t (.elapsedTime a b) s h result s')
    (hsplit : h = before ++ .ask t (.binding a) :: after) (hfirst : .ask t (.binding a) ∉ before)
    (hbefore : Run s before x) :
    ∃ nanos, Outcome (fun system => ∃ y, During s h y ∧ y.system = system) s'.world a b
      (x.system.binding a) (x.system.binding b) nanos ∧ result = nanos.map Elapsed.millis := by
  obtain ⟨ha, hb⟩ : a.ordinal < s.system.cells.length ∧ b.ordinal < s.system.cells.length :=
    ⟨hreturns.allows.2.events a (by simp [Call.events]),
      hreturns.allows.2.events b (by simp [Call.events])⟩
  have htimed : ∀ system, (∃ y, During s h y ∧ y.system = system) → system.engine.Timed := by
    rintro _ ⟨y, hy, rfl⟩
    exact timed_of_reachable (hy.reachable hs)
  obtain ⟨rest, rfl, hstep, hrest⟩ := hreturns
  cases before with
  | nil => cases hsplit
  | cons m before =>
    obtain ⟨rfl, hafter⟩ := List.cons.inj hsplit
    obtain ⟨z, hstep', hbefore⟩ := hbefore.uncons
    obtain rfl := hstep'.unique hstep
    refine hrest.finds ((sound_of_reachable hs).of_step hstep) ?_ (tasks_withTask_self ..)
      (finds_elapsedTime htimed ha hb hne) hafter
      (fun hmem => hfirst (List.mem_cons_of_mem _ hmem)) hbefore
    intro before' after' y hsplit' hrun
    exact ⟨y, ⟨.enter t (.elapsedTime a b) :: before', after', congrArg (_ :: ·) hsplit',
      hstep.run.trans hrun⟩, rfl⟩

/-! ## Later states -/

/-- In all states between these steps the event is where it is in `s`. -/
def Stays (s : Machine) (h : History) (event : Event) : Prop :=
  ∀ x, During s h x → (x.system.binding event).position? = (s.system.binding event).position?

/-- Nobody binds an event without moving it. -/
theorem Stays.untouched (hstays : Stays s h event) (hs : s.Reachable) (hrun : Run s h s') :
    Untouched event h := by
  intro l hl other hother hsame
  obtain ⟨before, after, rfl⟩ := List.append_of_mem hl
  obtain ⟨x, hbefore, hrest⟩ := hrun.split
  obtain ⟨y, hstep, -⟩ := hrest.uncons
  have hx : During s (before ++ l :: after) x := ⟨before, _, rfl, hbefore⟩
  have hy : During s (before ++ l :: after) y :=
    ⟨before ++ [l], after, by rw [List.append_assoc]; rfl, hbefore.snoc hstep⟩
  obtain ⟨t, call, z, h, -, hbound⟩ := boundBy_of_step (hs.run hbefore) hstep hother hsame
  exact hbound.moved ((hstays y hy).trans (hstays x hx).symm)

/-- A query that said that an event is ready is answered alike wherever the event is there still. -/
theorem ready_of_ready (hs : s.Reachable) (hquery : Returns t (.query event) s h .ready s')
    (hrun : Run s' h' x)
    (hsame : (x.system.binding event).position? = (s'.system.binding event).position?)
    {u : ThreadId} {h'' : History} {status : EventStatus}
    (hreturns : Returns u (.query event) x h'' status y) (hstays : Stays x h'' event) :
    status = .ready := by
  have hs' := hs.run hquery.run
  have hx := hs'.run hrun
  have hevent := hquery.allows.2.events event List.mem_cons_self
  have hcomplete := hquery.ensures_during (sound_of_reachable hs) (ensures_query_leaves hevent) rfl
  have hgrows := (sound_of_reachable hs').grows hrun
  refine hreturns.ensures_during (sound_of_reachable hx) (ensures_query_ready
    (hreturns.allows.2.events event List.mem_cons_self) ?_)
  rintro _ ⟨z, hz, rfl⟩ c hc
  rw [hstays z hz, hsame] at hc
  obtain ⟨before, after, -, hbefore⟩ := hz
  exact ((sound_of_reachable hx).grows hbefore).status (hgrows.status (hcomplete c hc))

/-- Two events at different commands with timestamps, both recorded, are measured from end to
end. -/
theorem measuredAs_of_times (hs : s.Reachable) (hne : a.ordinal ≠ b.ordinal)
    (ha : a.ordinal < s.system.cells.length) (hb : b.ordinal < s.system.cells.length)
    (henabled : (a.flags.timingDisabled || b.flags.timingDisabled) = false)
    (hc : s.system.binding a = .bound c true) (hd : s.system.binding b = .bound d true)
    (hcd : c ≠ d) {times u : Timestamps} (ht : s.world.times? c = some times)
    (hu : s.world.times? d = some u) :
    s.MeasuredAs a b (Elapsed.millis (Elapsed.nanosBetween times.stop u.stop)) := by
  have hposition : (s.system.binding a).position? = some c := by rw [hc]; rfl
  have hposition' : (s.system.binding b).position? = some d := by rw [hd]; rfl
  have hrecorded : ((s.system.binding a).recorded && (s.system.binding b).recorded) = true := by
    rw [hc, hd]
    rfl
  refine ⟨?_, ?_⟩
  · intro t h result s' hreturns hauntouched hbuntouched
    have hresult := eq_of_elapsedTime hs hne henabled hposition hposition' hcd ht hu hreturns
      hauntouched hbuntouched
    rwa [if_pos hrecorded] at hresult
  · intro t hidle hafree hbfree
    obtain ⟨system', hrun⟩ :=
      run_elapsedTime (t := t) hne henabled hafree hbfree hcd hposition hposition' ht hu
    rw [if_pos hrecorded] at hrun
    exact returns_of_run hidle (allows_elapsedTime ha hb) hrun

/-- A measurement of two events that were found recorded at different positions is answered alike
wherever they are so bound still. -/
theorem measuredAs_of_elapsedTime (hs : s.Reachable) (hne : a.ordinal ≠ b.ordinal) {millis : Single}
    (hmeasured : Returns t (.elapsedTime a b) s h (.ok millis) s')
    (hsplit : h = before ++ .ask t (.binding a) :: after)
    (hfirst : .ask t (.binding a) ∉ before) (hbefore : Run s before x) (hcd : c ≠ d)
    (hc : x.system.binding a = .bound c true) (hd : x.system.binding b = .bound d true)
    (hrun : Run s' h' y) (hc' : y.system.binding a = .bound c true)
    (hd' : y.system.binding b = .bound d true) : y.MeasuredAs a b millis := by
  have hallowed := hmeasured.allows.2
  have hs' := hs.run hmeasured.run
  have hy := hs'.run hrun
  have hcells := Nat.le_trans hmeasured.run.cells_le hrun.cells_le
  have ha := Nat.lt_of_lt_of_le (hallowed.events a (by simp [Call.events])) hcells
  have hb := Nat.lt_of_lt_of_le (hallowed.events b (by simp [Call.events])) hcells
  obtain ⟨nanos, houtcome, hresult⟩ := outcome_of_reading hs hne hmeasured hsplit hfirst hbefore
  rw [hc, hd] at houtcome
  cases houtcome with
  | unbound | disabled | pending => cases hresult
  | compared hp hr henabled _ hcompared =>
    cases hp
    cases hr
    cases hcompared with
    | untimed | gone | refused => cases hresult
    | measured hmeasures =>
      cases hresult
      cases hmeasures with
      | ends _ _ _ ht hu =>
        have hgrows := (sound_of_reachable hs').grows hrun
        exact measuredAs_of_times hy hne ha hb henabled hc' hd' hcd (hgrows.times? ht)
          (hgrows.times? hu)
      | fresh heq => exact absurd heq hcd
      | span hends => exact absurd ⟨hcd, rfl, rfl⟩ hends

/-- What the bindings of a state, and what was found of them, are good for. -/
structure StableBindings (s : Machine) : Prop where
  /-- What an event is bound to changes only in a step of a thread that is in a call to bind that
  event, and the call succeeds. -/
  bound : ∀ l s' event, Step s l s' → s'.system.binding event ≠ s.system.binding event →
    ∃ t call x h, l.thread? = some t ∧ BoundBy s event s' t call x h
  /-- A query that said that an event is ready is answered alike in all later states, until the
  event is at another position. -/
  ready : ∀ t event h s', Returns t (.query event) s h .ready s' → ∀ h' x, Run s' h' x →
    (x.system.binding event).position? = (s'.system.binding event).position? → ∀ u, x.Idle u →
      x.Concludes u (.query event) fun h'' status _ => Stays x h'' event → status = .ready
  /-- A measurement of two events that had a result, and found them recorded at different positions
  when it read the bindings in `x`, has the same result in all later states, until one of the events
  is at another position. -/
  measured : ∀ t a b h millis s', a.ordinal ≠ b.ordinal →
    Returns t (.elapsedTime a b) s h (.ok millis) s' → ∀ before after x,
      h = before ++ .ask t (.binding a) :: after → .ask t (.binding a) ∉ before →
        Run s before x → ∀ c d, c ≠ d → x.system.binding a = .bound c true →
          x.system.binding b = .bound d true → ∀ h' y, Run s' h' y →
            y.system.binding a = .bound c true → y.system.binding b = .bound d true →
              y.MeasuredAs a b millis ∧ ∀ u, y.Idle u →
                y.Concludes u (.elapsedTime a b) fun h'' result _ =>
                  Stays y h'' a → Stays y h'' b → result = .ok millis

/-- Bindings are stable, and what was found of events once is found again wherever they are so
bound. -/
theorem bindings_stable (hs : s.Reachable) : s.StableBindings := by
  refine ⟨?_, ?_, ?_⟩
  · intro l s' event hstep hchanged
    obtain ⟨other, hbinds, hsame⟩ : ∃ other, l.binds? = some other ∧
        other.ordinal = event.ordinal := by
      by_contra hnone
      refine hchanged (hstep.binding_eq ?_)
      intro m hm other hother hsame
      rw [List.mem_singleton.1 hm] at hother
      exact hnone ⟨other, hother, hsame⟩
    exact boundBy_of_step hs hstep hbinds hsame
  · intro t event h s' hquery h' x hrun hsame u hidle
    have hx := (hs.run hquery.run).run hrun
    have hevent := Nat.lt_of_lt_of_le (hquery.allows.2.events event List.mem_cons_self)
      (Nat.le_trans hquery.run.cells_le hrun.cells_le)
    refine concludes hx hidle ⟨nofun, nofun, ?_, nofun, nofun, nofun, nofun⟩ ?_
    · intro other hother
      rw [List.mem_singleton.1 hother]
      exact hevent
    · intro h'' status y hreturns hstays
      exact ready_of_ready hs hquery hrun hsame hreturns hstays
  · intro t a b h millis s' hne hmeasured before after x hsplit hfirst hbefore c d hcd hc hd h' y
      hrun hc' hd'
    have hagain := measuredAs_of_elapsedTime hs hne hmeasured hsplit hfirst hbefore hcd hc hd hrun
      hc' hd'
    have hy := (hs.run hmeasured.run).run hrun
    have hcells := Nat.le_trans hmeasured.run.cells_le hrun.cells_le
    have hallowed := hmeasured.allows.2
    refine ⟨hagain, fun u hidle => concludes hy hidle (allows_elapsedTime
      (Nat.lt_of_lt_of_le (hallowed.events a (by simp [Call.events])) hcells)
      (Nat.lt_of_lt_of_le (hallowed.events b (by simp [Call.events])) hcells)) ?_⟩
    intro h'' result z hreturns ha hb
    exact hagain.returned u h'' result z hreturns (ha.untouched hy hreturns.run)
      (hb.untouched hy hreturns.run)

/-! ### An event of a table and another one, measured before and after their queue is gone -/

namespace Outlived

def first : Event := ⟨0, .empty⟩

def second : Event := ⟨1, .empty⟩

/-- Work, an event of a table recorded behind it, more work, another event recorded behind that; the
worker has done everything. -/
def worked : Machine :=
  reached ([.call 0 (.newQueue {}), .call 0 (.newTable none), .call 0 (.tableCreate 0 0),
    .call 0 (.newEvent .empty), .call 0 (.enqueueWork 0 []), .call 0 (.tableRecord 0 ⟨1⟩ 0),
    .call 0 (.enqueueWork 0 []), .call 0 (.record second 0)] ++ List.replicate 10 (.worker 0))
    (start UInt64.ofNat)

def queried : Machine := worked.made 1 (.query first)

def measuring : Call := .elapsedTime first second

/-- The call has begun and holds both events. -/
def holding : List Beat := [.enter 1 measuring, .ask 1, .ask 1]

def measured : Machine := queried.made 1 measuring

/-- The queue is shut down and the event is taken out of the table, -/
def closed : Machine := reached [.call 0 (.shutdown 0), .call 0 (.tableDestroy 0 ⟨1⟩)] measured

/-- and the queue's last handle is dropped. -/
def gone : Machine := closed.enter 0 (.dropQueue 0)

theorem idle_closed : ∀ t, closed.Idle t
  | 0 | 1 => idle_of_idle (by decide)
  | _ + 2 => idle_of_idle rfl

theorem step_gone : Step closed (.enter 0 (.dropQueue 0)) gone := by
  refine .enter (idle_closed 0) ⟨by decide, nofun, nofun, nofun, nofun, ?_, nofun⟩
  rintro q - - ⟨t, task, htask, hunfinished, -⟩
  exact idle_closed t task htask hunfinished

end Outlived

open Outlived in
theorem bindings_stable_gone :
    (gone.world.queue 0).handles = 0 ∧ (gone.world.queue 0).accepting = false ∧
      gone.MeasuredAs first second (Elapsed.millis 2) ∧
        gone.Concludes 1 (.query first) fun h status _ => Stays gone h first → status = .ready := by
  have hworked : worked.Reachable := ⟨_, _, run_reached (by decide)⟩
  have hquery : Returns 1 (.query first) worked _ .ready queried := returns_made (by rfl)
  have hqueried := hworked.run hquery.run
  have hmeasured : Returns 1 measuring queried (queried.asked 1 measuring)
      (.ok (Elapsed.millis 2)) measured := returns_made (by rfl)
  have hclosed : Run measured _ closed := run_reached (by decide)
  have hgone := hclosed.snoc step_gone
  have hreading : queried.asked 1 measuring = played holding queried ++
      .ask 1 (.binding first) :: (queried.asked 1 measuring).drop 4 := by rfl
  have hfirst : .ask 1 (.binding first) ∉ played holding queried := by
    have hplayed : played holding queried =
        [.enter 1 measuring, .ask 1 (.lock first), .ask 1 (.lock second)] := by rfl
    simp [hplayed]
  have hholding : Run queried (played holding queried) (playedTo holding queried) :=
    run_playedTo (by decide)
  have hidle : gone.Idle 1 := fun task htask =>
    idle_closed 1 task ((tasks_withTask_of_ne (by decide) ..).symm.trans htask)
  have hwas : (queried.system.binding first).position? = some 0 := rfl
  have hstill : (gone.system.binding first).position? = some 0 := rfl
  refine ⟨by rfl, by rfl, ?_, ?_⟩
  · exact ((bindings_stable hqueried).measured 1 first second _ _ _ (by decide) hmeasured _ _ _
      hreading hfirst hholding 0 1 (by decide) rfl rfl _ _ hgone rfl rfl).1
  · exact (bindings_stable hworked).ready 1 first _ _ hquery _ _ (hmeasured.run.trans hgone)
      (hstill.trans hwas.symm) 1 hidle

end Machine

end SyncPoint.Host
