import SyncPoint.Proofs.Machine.Ending
import SyncPoint.Proofs.Machine.Measuring
import SyncPoint.Proofs.Machine.Schedule

/-!
# Recorded events that can be measured

Two events that were recorded on profiling queues and are ready can be measured exactly if the
commands that they are bound to are timed (`Machine.recorded_measurable`).  All work on a profiling
queue is timed, and so are the markers that recording enqueues.  But recording takes whatever
callers can see as the end of a queue, and that may be a marker that somebody wanted untimed:
the measurement then fails for want of timestamps (`Machine.untimed_not_measured`).
-/

namespace SyncPoint.Host

/-! ## Recording on a queue that profiles -/

section Recording

variable {t : ThreadId} {inv : System World → Prop} {system : System World} {event : Event}
  {q : QueueRef} {p : CommandRef} {w w' : World}

/-- The command is timed, or it is the newest that was found on the queue. -/
def TimedOrFound (inv : System World → Prop) (q : QueueRef) (w : World) (p : CommandRef) : Prop :=
  p < w.commands.length ∧
    ((w.command p).timed = true ∨ ∃ x, inv x ∧ (x.engine.queue q).last = some p)

theorem TimedOrFound.grows (h : TimedOrFound inv q w p) (hgrows : w.Grows w') :
    TimedOrFound inv q w' p := by
  obtain ⟨hlt, hposition⟩ := h
  refine ⟨Nat.lt_of_lt_of_le hlt hgrows.commands_le, ?_⟩
  rw [hgrows.timed_command hlt]
  exact hposition

theorem timedOrFound_enqueueMarker {c : CommandRef} (hprofiling : (w.queue q).profiling = true)
    (hc : (w.enqueueMarker q ⟨.timed, []⟩).value = .ok c) :
    TimedOrFound inv q (w.enqueueMarker q ⟨.timed, []⟩).state c := by
  refine ⟨World.lt_of_value_submit hc, .inl ?_⟩
  rw [World.enqueueMarker, (World.command_of_value_submit hc).2, hprofiling]
  rfl

theorem ensures_record_timed (hq : q < system.engine.queues.length)
    (hprofiling : (system.engine.queue q).profiling = true)
    (hevent : event.ordinal < system.cells.length) :
    Ensures t inv (fun system' result => result = .ok () →
      ∃ p, (system'.binding event).position? = some p ∧ TimedOrFound inv q system'.engine p)
      (event.record q).run system := by
  have hlasts : ∀ w w' p, w.Grows w' → TimedOrFound inv q w p → TimedOrFound inv q w' p := by
    intro w w' p hgrows hposition
    exact hposition.grows hgrows
  refine ensures_addMarker (TimedOrFound inv q) hlasts ?_ hevent
  intro locked hlocked
  have hkept : ∀ found : World, locked.engine.Grows found → (found.queue q).profiling = true := by
    intro found hgrows
    rw [((hlocked.grows.trans hgrows).queue q hq).2.1, hprofiling]
  refine ensures_currentPosition _ hlasts ?_ ?_
  · intro asked found h h' timing c htiming hc
    rcases htiming with rfl | huntimed
    · exact timedOrFound_enqueueMarker (hkept _ (h.grows.trans h'.grows)) hc
    · rw [hkept _ h.grows] at huntimed
      cases huntimed
  · intro asked c h hasked hlast
    have hlt := (h.world.captures_last (Nat.zero_le _) hlast).1
    exact ⟨hlt, .inr ⟨asked, hasked, hlast⟩⟩

end Recording

/-! ## Measuring positions that have run -/

/-- Positions of queues that are there all the time are measured exactly if both have timestamps. -/
theorem Compared.result_eq {inv : System World → Prop} {w : World} {p r : CommandRef}
    {first second : Bool} {result : Except Failure Int}
    (h : Compared inv w p r first second result)
    (hserving : ∀ x, inv x → x.engine.Serving (w.command p).queue) :
    if (w.times? p).isSome ∧ (w.times? r).isSome then ∃ nanos, result = .ok nanos
      else result = .error .noTimestamps := by
  cases h with
  | @untimed c hc hnone =>
    have huntimed : ¬ ((w.times? p).isSome ∧ (w.times? r).isSome) := by
      rintro ⟨hp, hr⟩
      rcases hc with rfl | rfl
      · simp [hnone] at hp
      · simp [hnone] at hr
    rw [if_neg huntimed]
  | gone _ _ _ hx hgone => exact absurd (hserving _ hx).1 (Nat.not_lt.2 (Nat.le_of_eq hgone))
  | refused _ _ _ hx hrefused =>
    have haccepting := (hserving _ hx).2
    rw [hrefused] at haccepting
    cases haccepting
  | measured hmeasures =>
    have htimes : (w.times? p).isSome ∧ (w.times? r).isSome := by
      cases hmeasures with
      | ends _ _ _ ht hu | span _ _ ht hu => simp [ht, hu]
      | fresh heq _ ht => simp [← heq, ht]
    rw [if_pos htimes]
    exact ⟨_, rfl⟩

namespace Machine

/-- An event that can measure time, that was bound last by a call to record it, made in `x` and with
these steps, on a profiling queue that exists and takes commands, and that is ready. -/
structure Recorded (s : Machine) (event : Event) (q : QueueRef) (x : Machine) (history : History) :
    Prop where
  reachable : x.Reachable
  last : ∃ t y h, Returns t (.record event q) x history (.ok ()) y ∧ Run y h s ∧ Untouched event h
  enabled : event.flags.timingDisabled = false
  profiling : (s.world.queue q).profiling = true
  serving : s.world.Serving q
  ready : ∀ c ∈ (s.system.binding event).position?, s.world.status c = .complete

/-- At some moment of these steps the newest command on the queue is `c`, an untimed marker. -/
def FindsUntimed (x : Machine) (history : History) (q : QueueRef) (c : CommandRef) : Prop :=
  ∃ y, During x history y ∧ (y.world.queue q).last = some c ∧ (y.world.command c).kind = .marker ∧
    (y.world.command c).timed = false

/-- What becomes of a measurement that thread `t` asks for, from an event on the queue `q`. -/
structure Measurement (s : Machine) (t : ThreadId) (a b : Event) (q : QueueRef)
    (expected : Except Failure Single → Prop) : Prop where
  /-- Whatever else happens meanwhile, what it returns is as expected, if nobody binds the events and
  the queue goes on to exist and to take commands. -/
  returned : ∀ h result s', Returns t (.elapsedTime a b) s h result s' →
    Untouched a h → Untouched b h → (∀ x, During s h x → x.world.Serving q) → expected result
  /-- Without new calls the machine comes to rest, -/
  settles : Acc GoesOn (s.enter t (.elapsedTime a b))
  /-- and by then the measurement has returned, as expected if nobody bound the events. -/
  ends : ∀ h s', Run (s.enter t (.elapsedTime a b)) h s' → (∀ l ∈ h, ∀ u call, l ≠ .enter u call) →
    (∀ s'', ¬ GoesOn s'' s') → ∃ result queues,
      s'.tasks t = some ⟨.elapsedTime a b, .done result, queues⟩ ∧
        (Untouched a h → Untouched b h → expected result)

variable {s s' x y : Machine} {t : ThreadId} {a b event : Event} {q r : QueueRef}
  {h history history' : History}

/-- An event that was recorded on a profiling queue is at a command that is timed, or that the call
found on the queue. -/
theorem timed_of_record (hs : s.Reachable) (hprofiling : (s.world.queue q).profiling = true)
    (h : Returns t (.record event q) s history (.ok ()) s') :
    ∃ p, (s'.system.binding event).position? = some p ∧ p < s'.world.commands.length ∧
      ((s'.world.command p).timed = true ∨
        ∃ x, During s history x ∧ (x.world.queue q).last = some p) := by
  have hallowed := h.allows.2
  have hevent := hallowed.events event (by simp [Call.events])
  have hq := lt_of_handles (hallowed.queues q (by simp [Call.queues]))
  have hrecord := h.ensures_during (sound_of_reachable hs)
    (ensures_record_timed hq hprofiling hevent)
  obtain ⟨p, hposition, hlt, htimed | ⟨_, ⟨x, hx, rfl⟩, hlast⟩⟩ := hrecord rfl
  · exact ⟨p, hposition, hlt, .inl htimed⟩
  · exact ⟨p, hposition, hlt, .inr ⟨x, hx, hlast⟩⟩

/-- A marker without timestamps never had any, and was a marker when it was found. -/
theorem findsUntimed_of_grows {z : Machine} {c : CommandRef} (hx : x.Reachable)
    (hz : During x history z) (hlast : (z.world.queue q).last = some c)
    (hgrows : z.world.Grows s.world) (hkind : (s.world.command c).kind = .marker)
    (huntimed : (s.world.command c).timed = false) : FindsUntimed x history q c := by
  have hsound := sound_of_reachable (hz.reachable hx)
  have hlt := (hsound.world.captures_last (Nat.zero_le _) hlast).1
  rw [hgrows.command c hlt] at hkind huntimed
  exact ⟨z, hz, hlast, hkind, huntimed⟩

namespace Recorded

theorem exist (h : s.Recorded event q x history) : event.ordinal < s.system.cells.length := by
  obtain ⟨t, y, h', hrecord, hrun, -⟩ := h.last
  have hevent := hrecord.allows.2.events event (by simp [Call.events])
  exact Nat.lt_of_lt_of_le hevent (hrecord.run.trans hrun).cells_le

/-- The event is bound to a command of the queue. Unless that is timed, it is a marker that recording
found at the end of the queue. -/
theorem position (h : s.Recorded event q x history) (hs : s.Reachable) :
    ∃ c, (s.system.binding event).position? = some c ∧ (s.world.command c).queue = q ∧
      ((s.world.command c).timed = true ∨ FindsUntimed x history q c) := by
  obtain ⟨t, y, h', hrecord, hrun, huntouched⟩ := h.last
  have hsound := sound_of_reachable h.reachable
  have hgrows := (hsound.of_run hrecord.run).grows hrun
  have hq := lt_of_handles (hrecord.allows.2.queues q (by simp [Call.queues]))
  have hprofiling : (x.world.queue q).profiling = true := by
    rw [← h.profiling, ((hsound.grows hrecord.run).trans hgrows |>.queue q hq).2.1]
  obtain ⟨c, hposition, hc, hfound⟩ := timed_of_record h.reachable hprofiling hrecord
  obtain ⟨c', hposition', -, hqueue, -⟩ := captures_of_record hsound hrecord
  cases hposition.symm.trans hposition'
  have hqueue' : (s.world.command c).queue = q := (hgrows.queue_command hc).trans hqueue
  refine ⟨c, ?_, hqueue', ?_⟩
  · rw [hrun.binding_eq huntouched]
    exact hposition
  cases htimed : (s.world.command c).timed with
  | true => exact .inl rfl
  | false =>
    rcases hfound with htimed' | ⟨z, hz, hlast⟩
    · rw [← hgrows.timed_command hc, htimed] at htimed'
      cases htimed'
    · have hsuits := (timed_of_reachable hs).suits c (Nat.lt_of_lt_of_le hc hgrows.commands_le)
      have hkind : (s.world.command c).kind = .marker := by
        by_contra hkind
        rw [hsuits.whole hkind, hqueue', h.profiling] at htimed
        cases htimed
      exact .inr (findsUntimed_of_grows h.reachable hz hlast
        ((hz.grows h.reachable hrecord.run).trans hgrows) hkind htimed)

end Recorded

theorem allows_elapsedTime (ha : a.ordinal < s.system.cells.length)
    (hb : b.ordinal < s.system.cells.length) : s.Allows (.elapsedTime a b) := by
  refine ⟨nofun, nofun, ?_, nofun, nofun, nofun, nofun⟩
  intro event hevent
  simp only [Call.events, List.mem_cons, List.not_mem_nil, or_false] at hevent
  rcases hevent with rfl | rfl
  · exact ha
  · exact hb

theorem During.serving {x : Machine} (hduring : During s (.enter t (.elapsedTime a b) :: h) x)
    (hcall : ∀ l ∈ h, ∀ u call, l ≠ .enter u call) (hserving : s.world.Serving q) :
    x.world.Serving q := by
  obtain ⟨before, after, hsplit, hrun⟩ := hduring
  cases before with
  | nil =>
    rw [hrun.eq_of_nil]
    exact hserving
  | cons l before =>
    cases hsplit
    obtain ⟨y, hfirst, hrest⟩ := hrun.uncons
    cases hfirst with
    | enter =>
      have hcall' : ∀ l ∈ before, ∀ u call, l ≠ .enter u call := by
        intro l hl
        exact hcall l (List.mem_append_left _ hl)
      exact hserving.of_settings (hrest.same_settings hcall')

section Result

variable {c d : CommandRef} {result : Except Failure Single}

/-- A measurement of two events at commands that have run succeeds exactly if both are timed. -/
theorem result_of_elapsedTime (hs : s.Reachable) (hne : a.ordinal ≠ b.ordinal)
    (hdisabled : (a.flags.timingDisabled || b.flags.timingDisabled) = false)
    (hc : (s.system.binding a).position? = some c) (hd : (s.system.binding b).position? = some d)
    (hcdone : s.world.status c = .complete) (hddone : s.world.status d = .complete)
    (h : Returns t (.elapsedTime a b) s history result s') (ha : Untouched a history)
    (hb : Untouched b history)
    (hserving : ∀ x, During s history x → x.world.Serving (s.world.command c).queue) :
    if (s.world.command c).timed = true ∧ (s.world.command d).timed = true then
      ∃ millis, result = .ok millis
    else result = .error .noTimestamps := by
  have hsound := sound_of_reachable hs
  have hgrows := hsound.grows h.run
  obtain ⟨x, nanos, hx, houtcome, rfl⟩ := outcome_of_elapsedTime hs hne h
  rw [hx.binding_eq ha, hx.binding_eq hb] at houtcome
  have hdone : ∀ system, (∃ y, During s history y ∧ y.system = system) →
      system.engine.status c = .complete ∧ system.engine.status d = .complete := by
    rintro _ ⟨y, ⟨before, after, -, hbefore⟩, rfl⟩
    have hlater := hsound.grows hbefore
    exact ⟨hlater.status hcdone, hlater.status hddone⟩
  obtain ⟨hdone, hcompared⟩ := houtcome.compared_of_done hc hd hdisabled hdone
  have htimed := timed_of_reachable (hs.run h.run)
  have hc := World.lt_of_status_eq_complete hcdone
  have hd := World.lt_of_status_eq_complete hddone
  have hresult := hcompared.result_eq ?_
  · rw [htimed.isSome_times? hdone.1, htimed.isSome_times? hdone.2, hgrows.timed_command hc,
      hgrows.timed_command hd] at hresult
    split at hresult
    next hboth =>
      obtain ⟨nanos, rfl⟩ := hresult
      rw [if_pos hboth]
      exact ⟨_, rfl⟩
    next hnot =>
      rw [if_neg hnot, hresult]
      rfl
  · rintro _ ⟨y, hy, rfl⟩
    rw [hgrows.queue_command hc]
    exact hserving y hy

end Result

/-- Two events that were recorded on profiling queues and are ready are measured exactly if the
commands that they are bound to are timed, and they are unless recording found an untimed marker. -/
theorem recorded_measurable (hs : s.Reachable) (ha : s.Recorded a q x history)
    (hb : s.Recorded b r y history') (hne : a.ordinal ≠ b.ordinal) (hopen : s.world.Open) :
    ∃ c d, (s.system.binding a).position? = some c ∧ (s.system.binding b).position? = some d ∧
      ((s.world.command c).timed = true ∨ FindsUntimed x history q c) ∧
      ((s.world.command d).timed = true ∨ FindsUntimed y history' r d) ∧
      ∀ t, s.Idle t → s.Measurement t a b q fun result =>
        if (s.world.command c).timed = true ∧ (s.world.command d).timed = true then
          ∃ millis, result = .ok millis
        else result = .error .noTimestamps := by
  obtain ⟨c, hac, hcq, hc⟩ := ha.position hs
  obtain ⟨d, hbd, hdr, hd⟩ := hb.position hs
  refine ⟨c, d, hac, hbd, hc, hd, ?_⟩
  intro t hidle
  have hallowed := allows_elapsedTime (b := b) ha.exist hb.exist
  have hdisabled : (a.flags.timingDisabled || b.flags.timingDisabled) = false := by
    simp [ha.enabled, hb.enabled]
  have hresult : ∀ h result s', Returns t (.elapsedTime a b) s h result s' →
      Untouched a h → Untouched b h → (∀ x, During s h x → x.world.Serving q) →
        if (s.world.command c).timed = true ∧ (s.world.command d).timed = true then
          ∃ millis, result = .ok millis
        else result = .error .noTimestamps := by
    intro h result s' hreturns ha' hb' hserving
    rw [← hcq] at hserving
    exact result_of_elapsedTime hs hne hdisabled hac hbd (ha.ready c hac) (hb.ready d hbd) hreturns
      ha' hb' hserving
  refine ⟨hresult, acc_goesOn (hs.run (Step.enter hidle hallowed).run), ?_⟩
  intro h s' hrun hcall hrest
  obtain ⟨before, after, result, x, queues, rfl, hreturns, hdone⟩ :=
    returns_of_rest hs hidle hallowed hopen hrun hcall hrest
  refine ⟨result, queues, hdone, ?_⟩
  intro ha' hb'
  refine hresult _ result x hreturns (Untouched.enter_cons ha'.of_append.1)
    (Untouched.enter_cons hb'.of_append.1) ?_
  intro y hy
  exact hy.serving (fun l hl => hcall l (List.mem_append_left _ hl)) ha.serving

/-! ### Three events on a queue, the first of them at a marker that somebody wanted untimed -/

namespace Noted

def first : Event := ⟨0, .empty⟩

def second : Event := ⟨1, .empty⟩

def third : Event := ⟨2, .empty⟩

def marked : Machine :=
  reached [.call 0 (.newQueue {}), .call 0 (.newEvent .empty), .call 0 (.newEvent .empty),
    .call 0 (.newEvent .empty), .call 0 (.enqueueMarker 0 ⟨.untimed, []⟩)] (start UInt64.ofNat)

def one : Machine := marked.made 0 (.record first 0)

def pushed : Machine := reached [.call 0 (.enqueueWork 0 [.push 1])] one

def two : Machine := pushed.made 0 (.record second 0)

def pushedAgain : Machine := reached [.call 0 (.enqueueWork 0 [.push 2])] two

def three : Machine := pushedAgain.made 0 (.record third 0)

/-- The worker has done everything. -/
def worked : Machine := reached (List.replicate 17 (.worker 0)) three

theorem recorded_worked : worked.Reachable ∧
    worked.Recorded first 0 marked (marked.asked 0 (.record first 0)) ∧
    worked.Recorded second 0 pushed (pushed.asked 0 (.record second 0)) ∧
    worked.Recorded third 0 pushedAgain (pushedAgain.asked 0 (.record third 0)) := by
  have hmarked : marked.Reachable := ⟨_, _, run_reached (by decide)⟩
  have hone : Returns 0 (.record first 0) marked _ (.ok ()) one := returns_made (by rfl)
  have hpushed : Run one _ pushed := run_reached (by decide)
  have htwo : Returns 0 (.record second 0) pushed _ (.ok ()) two := returns_made (by rfl)
  have hpushed' : Run two _ pushedAgain := run_reached (by decide)
  have hthree : Returns 0 (.record third 0) pushedAgain _ (.ok ()) three := returns_made (by rfl)
  have hworked : Run three _ worked := run_reached (by decide)
  have hfrom₂ := (hpushed'.trans hthree.run).trans hworked
  have hfrom₁ := (hpushed.trans htwo.run).trans hfrom₂
  have hreached₂ := (hmarked.run hone.run).run hpushed
  have hreached₃ := (hreached₂.run htwo.run).run hpushed'
  have hserving : worked.world.Serving 0 := ⟨by decide, by decide⟩
  refine ⟨(hmarked.run hone.run).run hfrom₁, ?_, ?_, ?_⟩
  · exact ⟨hmarked, ⟨_, _, _, hone, hfrom₁, by decide⟩, rfl, by decide, hserving, by decide⟩
  · exact ⟨hreached₂, ⟨_, _, _, htwo, hfrom₂, by decide⟩, rfl, by decide, hserving, by decide⟩
  · exact ⟨hreached₃, ⟨_, _, _, hthree, hworked, by decide⟩, rfl, by decide, hserving, by decide⟩

theorem open_worked : worked.world.Open :=
  show ∀ q, q < worked.world.queues.length → (worked.world.queue q).paused = false by decide

theorem idle_worked : worked.Idle 0 := idle_of_idle (by decide)

end Noted

open Noted in
theorem recorded_measurable_worked :
    worked.Measurement 0 second third 0 fun result => ∃ millis, result = .ok millis := by
  obtain ⟨hs, -, hsecond, hthird⟩ := recorded_worked
  obtain ⟨c, d, hc, hd, -, -, hmeasurement⟩ :=
    recorded_measurable hs hsecond hthird (by decide) open_worked
  cases hc
  cases hd
  exact hmeasurement 0 idle_worked

open Noted in
/-- An event at a marker without timestamps is as well recorded as any, and cannot be measured. -/
theorem untimed_not_measured :
    worked.Reachable ∧ worked.Recorded first 0 marked (marked.asked 0 (.record first 0)) ∧
      worked.Recorded second 0 pushed (pushed.asked 0 (.record second 0)) ∧ worked.world.Open ∧
      Returns 0 (.elapsedTime first second) worked (worked.asked 0 (.elapsedTime first second))
        (.error .noTimestamps) (worked.made 0 (.elapsedTime first second)) := by
  obtain ⟨hs, hfirst, hsecond, -⟩ := recorded_worked
  exact ⟨hs, hfirst, hsecond, open_worked, returns_made (by rfl)⟩

end Machine

end SyncPoint.Host
