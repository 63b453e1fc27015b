import SyncPoint.Proofs.Atomicity
import SyncPoint.Proofs.Machine.Bindings
import SyncPoint.Proofs.Machine.Relying
import SyncPoint.Proofs.Machine.Schedule

/-!
# Recording again and again

Calls to record onto one queue, one after the other while nobody else enqueues anything there, do
not pile up markers (`Machine.recordings_gathered`): on a profiling queue all of them bind their
events to one command, and a marker is enqueued for that only if the queue has accepted nothing yet
or ends with a barrier.  On a queue that does not profile each call gets an untimed marker of its
own, until the queue is shut down: then the calls that are still to come fail
(`Machine.recordings_cut_short`).
-/

namespace SyncPoint.Host

/-! ## The end of a queue -/

namespace World

variable {w w₁ w₂ : World} {q : QueueRef} {c : CommandRef} {cs : List CommandRef} {refused : Prop}

/-- The queue has accepted nothing, or ends with a barrier. -/
def EndsHidden (w : World) (q : QueueRef) : Prop :=
  w.accepted q = [] ∨ ∃ b, (w.accepted q).getLast? = some b ∧ (w.command b).kind = .barrier

theorem reusable?_eq_some_iff : w.reusable? q = some c ↔
    (w.queue q).profiling = true ∧ (w.queue q).last = some c ∧ (w.command c).kind ≠ .barrier := by
  rw [reusable?]
  split
  next hprofiling => simp [Option.filter_eq_some_iff, hprofiling]
  next hprofiling => simp [hprofiling]

theorem reusable?_eq_none_iff (hw : w.Sound) :
    w.reusable? q = none ↔ ((w.queue q).profiling = true → w.EndsHidden q) := by
  rw [reusable?, EndsHidden, ← hw.newest]
  split
  next hprofiling =>
    have hempty : w.accepted q = [] ↔ (w.queue q).last = none := by
      rw [hw.newest, List.getLast?_eq_none_iff]
    rw [hempty, forall_prop_of_true hprofiling]
    cases (w.queue q).last <;> simp
  next hprofiling => simp [hprofiling]

/-- What came of asking for the queue's current end several times, from `w` on: `cs` is what was
answered, and `refused` tells that the last answers were refusals. -/
structure Gathers (q : QueueRef) (w w' : World) (cs : List CommandRef) (refused : Prop) :
    Prop where
  /-- A queue that has refused once keeps refusing. -/
  exhausted : refused → (w'.queue q).accepting = false ∧ w'.reusable? q = none
  none : cs = [] → w'.accepted q = w.accepted q
  /-- On a profiling queue all answers are one command, the newest one of the queue, and it was
  enqueued for that only if there was none to reuse. -/
  profiling : (w.queue q).profiling = true → cs ≠ [] → ∃ c, (∀ d ∈ cs, d = c) ∧
    w'.reusable? q = some c ∧
      ((¬ w.EndsHidden q ∧ w'.accepted q = w.accepted q) ∨
        (w.EndsHidden q ∧ w'.accepted q = w.accepted q ++ [c] ∧ w'.BareMarker c true))
  /-- On another queue each answer is an untimed marker that was enqueued for it. -/
  unprofiled : (w.queue q).profiling = false →
    w'.accepted q = w.accepted q ++ cs ∧ (∀ c ∈ cs, w'.BareMarker c false) ∧
      (cs ≠ [] → (w.queue q).accepting = true)

section Gathers

variable (hw₁ : w₁.Sound) (hq : q < w₁.queues.length)
include hw₁ hq

theorem Gathers.still (h : w.Gathers q w₁ cs refused) (hstill : w₁.Still q w₂) :
    w.Gathers q w₂ cs refused := by
  have hmarker : ∀ {c timed}, c ∈ w₁.accepted q → w₁.BareMarker c timed → w₂.BareMarker c timed :=
    fun hc hmarker => hmarker.grows hstill.grows (mem_accepted.1 hc).1
  refine ⟨fun hrefused => ?_, fun hcs => hstill.accepted.trans (h.none hcs), ?_, ?_⟩
  · obtain ⟨hclosed, hnone⟩ := h.exhausted hrefused
    exact ⟨hstill.refuses hclosed, (hstill.reusable hw₁ hq).trans hnone⟩
  · intro hprofiling hcs
    obtain ⟨c, hall, hreused, hadded⟩ := h.profiling hprofiling hcs
    refine ⟨c, hall, (hstill.reusable hw₁ hq).trans hreused, ?_⟩
    rw [hstill.accepted]
    refine hadded.imp id fun ⟨hhidden, haccepted, hbare⟩ => ⟨hhidden, haccepted, hmarker ?_ hbare⟩
    rw [haccepted]
    exact List.mem_append_right _ List.mem_cons_self
  · intro hprofiling
    obtain ⟨haccepted, hbare, hopen⟩ := h.unprofiled hprofiling
    refine ⟨hstill.accepted.trans haccepted, fun c hc => hmarker ?_ (hbare c hc), hopen⟩
    rw [haccepted]
    exact List.mem_append_right _ hc

/-- The newest command is reused once more. -/
theorem Gathers.reused (h : w.Gathers q w₁ cs refused) (hw : w.Sound) (hqw : q < w.queues.length)
    (hfirst : w.Onward q w₁) (hnext : w₁.Onward q w₂) (hreused : w₁.reusable? q = some c)
    (haccepted : w₂.accepted q = w₁.accepted q) :
    ¬ refused ∧ w.Gathers q w₂ (cs ++ [c]) refused := by
  have hstill : w₁.Still q w₂ := ⟨hnext, haccepted⟩
  have hfresh : ¬ refused := fun hrefused =>
    absurd ((h.exhausted hrefused).2.symm.trans hreused) nofun
  have hreused₂ := (hstill.reusable hw₁ hq).trans hreused
  refine ⟨hfresh, fun hrefused => absurd hrefused hfresh, by simp, ?_, ?_⟩
  · intro hprofiling _
    by_cases hcs : cs = []
    · refine ⟨c, by simp [hcs], hreused₂, .inl ⟨?_, haccepted.trans (h.none hcs)⟩⟩
      intro hhidden
      have hnone := (reusable?_eq_none_iff hw).2 fun _ => hhidden
      have hsame := Still.reusable ⟨hfirst, h.none hcs⟩ hw hqw
      exact absurd ((hsame.trans hnone).symm.trans hreused) nofun
    · obtain ⟨d, hall, hreused', hadded⟩ := (h.still hw₁ hq hstill).profiling hprofiling hcs
      obtain rfl := Option.some.inj (hreused₂.symm.trans hreused')
      refine ⟨c, fun d hd => ?_, hreused₂, hadded⟩
      rcases List.mem_append.1 hd with hd | hd
      · exact hall d hd
      · exact List.mem_singleton.1 hd
  · intro hprofiling
    have hprofiles := (hfirst.grows.queue q hqw).2.1.symm.trans (reusable?_eq_some_iff.1 hreused).1
    exact absurd (hprofiling.symm.trans hprofiles) nofun

omit hw₁ in
/-- One more marker is enqueued. -/
theorem Gathers.marked (h : w.Gathers q w₁ cs refused) (hw : w.Sound) (hqw : q < w.queues.length)
    (hfirst : w.Onward q w₁) (hnext : w₁.Onward q w₂) (hnone : w₁.reusable? q = .none)
    (hopen : (w₁.queue q).accepting = true) (haccepted : w₂.accepted q = w₁.accepted q ++ [c])
    (hmarker : w₂.BareMarker c (w₁.queue q).profiling) :
    ¬ refused ∧ w.Gathers q w₂ (cs ++ [c]) refused := by
  have hprofiling₁ := (hfirst.grows.queue q hqw).2.1
  have hfresh : ¬ refused := fun hrefused =>
    absurd ((h.exhausted hrefused).1.symm.trans hopen) nofun
  rw [hprofiling₁] at hmarker
  refine ⟨hfresh, fun hrefused => absurd hrefused hfresh, by simp, ?_, ?_⟩
  · intro hprofiling _
    have hcs : cs = [] := by
      by_contra hcs
      obtain ⟨d, -, hreused, -⟩ := h.profiling hprofiling hcs
      exact absurd (hnone.symm.trans hreused) nofun
    rw [hprofiling] at hmarker
    have hsame := Still.reusable ⟨hfirst, h.none hcs⟩ hw hqw
    have hhidden := (reusable?_eq_none_iff hw).1 (hsame.symm.trans hnone) hprofiling
    rw [h.none hcs] at haccepted
    refine ⟨c, by simp [hcs], reusable?_eq_some_iff.2 ⟨?_, ?_, ?_⟩,
      .inr ⟨hhidden, haccepted, hmarker⟩⟩
    · rw [(hnext.grows.queue q hq).2.1, hprofiling₁, hprofiling]
    · rw [hnext.sound.newest, haccepted, List.getLast?_concat]
    · rw [hmarker.kind]
      nofun
  · intro hprofiling
    rw [hprofiling] at hmarker
    obtain ⟨haccepted₁, hbare, -⟩ := h.unprofiled hprofiling
    refine ⟨by rw [haccepted, haccepted₁, List.append_assoc], fun d hd => ?_, fun _ => ?_⟩
    · rcases List.mem_append.1 hd with hd | hd
      · have hold : d ∈ w₁.accepted q := by
          rw [haccepted₁]
          exact List.mem_append_right _ hd
        exact (hbare d hd).grows hnext.grows (mem_accepted.1 hold).1
      · rw [List.mem_singleton.1 hd]
        exact hmarker
    · cases haccepting : (w.queue q).accepting with
      | true => rfl
      | false => exact absurd (hopen.symm.trans (hfirst.refuses haccepting)) nofun

/-- The queue refuses. -/
theorem Gathers.refuses (h : w.Gathers q w₁ cs refused) (hnext : w₁.Onward q w₂)
    (hnone : w₁.reusable? q = .none) (haccepted : w₂.accepted q = w₁.accepted q)
    (hclosed : (w₂.queue q).accepting = false) :
    (cs ≠ [] → (w.queue q).profiling = false) ∧ w.Gathers q w₂ cs True := by
  have hstill : w₁.Still q w₂ := ⟨hnext, haccepted⟩
  have hkept := h.still hw₁ hq hstill
  refine ⟨fun hcs => ?_, fun _ => ⟨hclosed, (hstill.reusable hw₁ hq).trans hnone⟩, hkept.none,
    hkept.profiling, hkept.unprofiled⟩
  cases hprofiling : (w.queue q).profiling with
  | false => rfl
  | true =>
    obtain ⟨d, -, hreused, -⟩ := h.profiling hprofiling hcs
    exact absurd (hnone.symm.trans hreused) nofun

/-- What comes of asking once more. -/
theorem Gathers.next (h : w.Gathers q w₁ cs refused) (hw : w.Sound) (hqw : q < w.queues.length)
    (hfirst : w.Onward q w₁) (hnext : w₁.Onward q w₂) {chosen : Except Failure CommandRef}
    (hend : w₁.TakesEnd q w₂ chosen) :
    (∃ c, chosen = .ok c ∧ ¬ refused ∧ w.Gathers q w₂ (cs ++ [c]) refused) ∨
      (chosen = .error .queueShutDown ∧ (cs ≠ [] → (w.queue q).profiling = false) ∧
        w.Gathers q w₂ cs True) := by
  cases hend with
  | reused hreused haccepted =>
    exact .inl ⟨_, rfl, h.reused hw₁ hq hw hqw hfirst hnext hreused haccepted⟩
  | marked hnone hopen haccepted hmarker =>
    exact .inl ⟨_, rfl, h.marked hq hw hqw hfirst hnext hnone hopen haccepted hmarker⟩
  | refused hnone haccepted hclosed =>
    exact .inr ⟨rfl, h.refuses hw₁ hq hnext hnone haccepted hclosed⟩

end Gathers

end World

/-! ## Calls to record -/

namespace Machine

variable {s s' x y : Machine} {q : QueueRef} {rs good bad : List Recording} {cs : List CommandRef}

/-- A call to record an event, with what came of it. -/
structure Recording where
  thread : ThreadId
  event : Event
  first : Machine
  history : History
  result : Except Failure Unit
  last : Machine

/-- From `s` on, these calls record on the queue one after the other, and nobody else enqueues
anything there, neither during a call nor between two of them. -/
inductive Recordings (q : QueueRef) (s : Machine) : List Recording → Machine → Prop
  | none : Recordings q s [] s
  | meanwhile {rs : List Recording} {x y : Machine} {l : Happening} (h : Recordings q s rs x)
      (hstep : Step x l y) (hnone : ∀ kind, x.taking? l ≠ some ⟨q, kind⟩) : Recordings q s rs y
  | call {rs : List Recording} {r : Recording} (h : Recordings q s rs r.first)
      (hreturns : Returns r.thread (.record r.event q) r.first r.history r.result r.last)
      (halone : TakesFrom r.thread q r.first r.history) : Recordings q s (rs ++ [r]) r.last

theorem Recordings.run (h : Recordings q s rs s') : ∃ history, Run s history s' := by
  induction h with
  | none => exact ⟨[], .refl⟩
  | meanwhile _ hstep _ ih =>
    obtain ⟨history, hrun⟩ := ih
    exact ⟨_, hrun.snoc hstep⟩
  | call _ hreturns _ ih =>
    obtain ⟨history, hrun⟩ := ih
    exact ⟨_, hrun.trans hreturns.run⟩

namespace Recording

/-- The call succeeded, and its event is bound to the command until somebody binds it. -/
structure BoundTo (r : Recording) (c : CommandRef) : Prop where
  result : r.result = .ok ()
  stays : ∀ history x, Run r.last history x → Untouched r.event history →
    (x.system.binding r.event).position? = some c

/-- The call was refused, and it changed nothing. -/
structure Refused (r : Recording) : Prop where
  result : r.result = .error .queueShutDown
  changedNothing : ChangedNothing r.thread r.first r.history r.last

end Recording

/-- What came of calls to record on a queue, from `s` to `s'`: those that succeeded, those that
failed after them, and the commands to which the former bound their events. -/
structure Gathered (q : QueueRef) (s : Machine) (good bad : List Recording) (cs : List CommandRef)
    (s' : Machine) : Prop where
  bound : List.Forall₂ Recording.BoundTo good cs
  refused : ∀ r ∈ bad, r.Refused
  closed : bad ≠ [] → (s'.world.queue q).accepting = false
  /-- Some succeed and some fail only if the queue does not profile and was shut down meanwhile. -/
  mixed : good ≠ [] → bad ≠ [] →
    (s.world.queue q).profiling = false ∧ (s.world.queue q).accepting = true
  unchanged : good = [] → s'.world.accepted q = s.world.accepted q
  profiling : (s.world.queue q).profiling = true → good ≠ [] →
    ∃ c, (∀ d ∈ cs, d = c) ∧ (s'.world.queue q).last = some c ∧
      ((¬ s.world.EndsHidden q ∧ s'.world.accepted q = s.world.accepted q) ∨
        (s.world.EndsHidden q ∧ s'.world.accepted q = s.world.accepted q ++ [c] ∧
          s'.world.BareMarker c true))
  unprofiled : (s.world.queue q).profiling = false →
    s'.world.accepted q = s.world.accepted q ++ cs ∧ ∀ c ∈ cs, s'.world.BareMarker c false

/-- The same while further calls may come. -/
structure Gathering (q : QueueRef) (s : Machine) (good bad : List Recording) (cs : List CommandRef)
    (x : Machine) : Prop where
  bound : List.Forall₂ Recording.BoundTo good cs
  refused : ∀ r ∈ bad, r.Refused
  mixed : cs ≠ [] → bad ≠ [] → (s.world.queue q).profiling = false
  gathers : s.world.Gathers q x.world cs (bad ≠ [])

theorem Gathering.gathered (h : Gathering q s good bad cs s') : Gathered q s good bad cs s' := by
  have hempty : good = [] ↔ cs = [] := by
    rw [← List.length_eq_zero_iff, h.bound.length_eq, List.length_eq_zero_iff]
  refine ⟨h.bound, h.refused, fun hbad => (h.gathers.exhausted hbad).1, ?_,
    fun hgood => h.gathers.none (hempty.1 hgood), ?_, ?_⟩
  · intro hgood hbad
    have hcs := mt hempty.2 hgood
    have hprofiling := h.mixed hcs hbad
    exact ⟨hprofiling, (h.gathers.unprofiled hprofiling).2.2 hcs⟩
  · intro hprofiling hgood
    obtain ⟨c, hall, hreused, hadded⟩ := h.gathers.profiling hprofiling (mt hempty.2 hgood)
    exact ⟨c, hall, (World.reusable?_eq_some_iff.1 hreused).2.1, hadded⟩
  · intro hprofiling
    obtain ⟨haccepted, hbare, -⟩ := h.gathers.unprofiled hprofiling
    exact ⟨haccepted, hbare⟩

/-- One call more. -/
theorem Gathering.call {r : Recording} (h : Gathering q s good bad cs r.first) (hs : s.Reachable)
    (hq : q < s.world.queues.length) {history : History} (hrun : Run s history r.first)
    (hreturns : Returns r.thread (.record r.event q) r.first r.history r.result r.last)
    (halone : TakesFrom r.thread q r.first r.history) :
    (∃ c, bad = [] ∧ Gathering q s (good ++ [r]) [] (cs ++ [c]) r.last) ∨
      Gathering q s good (bad ++ [r]) cs r.last := by
  have hsound := sound_of_reachable hs
  have hfirst := hsound.of_run hrun
  have hq' := Nat.lt_of_lt_of_le hq (hsound.grows hrun).queues_le
  obtain ⟨chosen, hend, hresult, hposition⟩ := takesEnd_of_returns hfirst hreturns halone
  rcases h.gathers.next hfirst.world hq' hsound.world hq (hrun.onward hsound hq)
    (hreturns.run.onward hfirst hq') hend with ⟨c, rfl, hbad, hgathers⟩ | ⟨rfl, hmixed, hgathers⟩
  · obtain rfl : bad = [] := not_not.1 hbad
    refine .inl ⟨c, rfl, List.rel_append h.bound (.cons ⟨hresult, ?_⟩ .nil), nofun, nofun, hgathers⟩
    intro history x hlater huntouched
    rw [hlater.binding_eq huntouched]
    exact hposition c rfl
  · refine .inr ⟨h.bound, fun r' hr' => ?_, fun hcs _ => hmixed hcs, ?_⟩
    · rcases List.mem_append.1 hr' with hr' | hr'
      · exact h.refused r' hr'
      · rw [List.mem_singleton.1 hr']
        exact ⟨hresult, failed_undisturbed (hs.run hrun) hreturns (congrArg failureOf? hresult)⟩
    · simpa using hgathers

theorem exists_gathering (hs : s.Reachable) (hq : q < s.world.queues.length)
    (h : Recordings q s rs s') :
    ∃ good bad cs, rs = good ++ bad ∧ Gathering q s good bad cs s' := by
  have hsound := sound_of_reachable hs
  induction h with
  | none =>
    exact ⟨[], [], [], rfl, .nil, nofun, nofun, nofun, fun _ => rfl, fun _ hcs => absurd rfl hcs,
      fun _ => ⟨(List.append_nil _).symm, nofun, fun hcs => absurd rfl hcs⟩⟩
  | @meanwhile rs x y l h hstep hnone ih =>
    obtain ⟨good, bad, cs, hsplit, hgathering⟩ := ih
    obtain ⟨history, hrun⟩ := h.run
    have hx := hsound.of_run hrun
    have hqx := Nat.lt_of_lt_of_le hq (hsound.grows hrun).queues_le
    exact ⟨good, bad, cs, hsplit, hgathering.bound, hgathering.refused, hgathering.mixed,
      hgathering.gathers.still hx.world hqx (hstep.still hx hqx hnone)⟩
  | @call rs r h hreturns halone ih =>
    obtain ⟨good, bad, cs, rfl, hgathering⟩ := ih
    obtain ⟨history, hrun⟩ := h.run
    rcases hgathering.call hs hq hrun hreturns halone with ⟨c, rfl, hnext⟩ | hnext
    · exact ⟨good ++ [r], [], cs ++ [c], by simp, hnext⟩
    · exact ⟨good, bad ++ [r], cs, List.append_assoc .., hnext⟩

/-- Recording again and again does not pile up markers. -/
theorem recordings_gathered (hs : s.Reachable) (hq : q < s.world.queues.length)
    (h : Recordings q s rs s') :
    ∃ good bad cs, rs = good ++ bad ∧ Gathered q s good bad cs s' := by
  obtain ⟨good, bad, cs, hsplit, hgathering⟩ := exists_gathering hs hq h
  exact ⟨good, bad, cs, hsplit, hgathering.gathered⟩

/-! ### Three calls for two events, and two calls with a shutdown between them -/

/-- A thread that nobody disturbs is the only one that enqueues anything. -/
theorem takesFrom_of_alone {t : ThreadId} {history : History}
    (h : ∀ l ∈ history, l.thread? = some t) : TakesFrom t q s history := by
  rintro before l after x kind rfl - -
  exact h l (by simp)

namespace Repeated

def first : Event := ⟨0, .empty⟩

def second : Event := ⟨1, .empty⟩

/-- A queue and two events. -/
def ready (profiling : Bool) : Machine :=
  reached [.call 0 (.newQueue { profiling := profiling }), .call 0 (.newEvent .empty),
    .call 0 (.newEvent .empty)] (start UInt64.ofNat)

/-- What a call to record comes to. -/
def record (t : ThreadId) (event : Event) (s : Machine) : Recording :=
  ⟨t, event, s, s.asked t (.record event 0), .ok (), s.made t (.record event 0)⟩

def once : Recording := record 0 first (ready true)

def twice : Recording := record 1 second once.last

def thrice : Recording := record 0 first twice.last

/-- On a queue that does not profile. -/
def early : Recording := record 0 first (ready false)

def closed : Machine := early.last.enter 0 (.shutdown 0)

def late : Recording := { record 0 first closed with result := .error .queueShutDown }

theorem reachable_ready (profiling : Bool) : (ready profiling).Reachable := by
  cases profiling <;> exact ⟨_, _, run_reached (by decide)⟩

end Repeated

open Repeated in
theorem recordings_gathered_thrice :
    0 < (ready true).world.queues.length ∧ thrice.last.world.accepted 0 = [0] ∧
      ∃ good bad cs, [once, twice, thrice] = good ++ bad ∧
        Gathered 0 (ready true) good bad cs thrice.last := by
  have hfirst : Recordings 0 (ready true) [once] once.last :=
    .call (r := once) .none (returns_made (by rfl)) (takesFrom_of_alone (by decide))
  have hsecond : Recordings 0 (ready true) [once, twice] twice.last :=
    hfirst.call (r := twice) (returns_made (by rfl)) (takesFrom_of_alone (by decide))
  have hthird : Recordings 0 (ready true) [once, twice, thrice] thrice.last :=
    hsecond.call (r := thrice) (returns_made (by rfl)) (takesFrom_of_alone (by decide))
  exact ⟨by decide, by decide, recordings_gathered (reachable_ready true) (by decide) hthird⟩

open Repeated in
/-- Where a queue that does not profile is shut down, one call succeeds and the next one fails. -/
theorem recordings_cut_short :
    ∃ (s s' : Machine) (rs : List Recording), s.Reachable ∧ 0 < s.world.queues.length ∧
      Recordings 0 s rs s' ∧ (¬ ∀ r ∈ rs, r.result = .ok ()) ∧
        ¬ ∃ failure, ∀ r ∈ rs, r.result = .error failure := by
  have hearly : Recordings 0 (ready false) [early] early.last :=
    .call (r := early) .none (returns_made (by rfl)) (takesFrom_of_alone (by decide))
  have hclosed : Step early.last (.enter 0 (.shutdown 0)) closed :=
    step_of_beat (b := .enter 0 (.shutdown 0)) (by rfl)
  have hlate : Recordings 0 (ready false) [early, late] late.last :=
    (hearly.meanwhile hclosed nofun).call (r := late) (returns_made (by rfl))
      (takesFrom_of_alone (by decide))
  refine ⟨_, _, _, reachable_ready false, by decide, hlate, fun hall => ?_, ?_⟩
  · exact absurd (hall late (by simp)) nofun
  · rintro ⟨failure, hall⟩
    exact absurd (hall early (by simp)) nofun

end Machine

end SyncPoint.Host
