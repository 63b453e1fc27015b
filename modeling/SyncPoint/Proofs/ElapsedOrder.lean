import SyncPoint.Proofs.Machine.Measuring
import SyncPoint.Proofs.Machine.Schedule

/-!
# The sign of elapsed time

A queue executes its commands one after the other, so that what is read of its clock for one command
comes after all that was read for the commands before it.  Where those readings never decrease, a
measurement of two events on the queue is not negative if the first is bound to the earlier command
or to the same one, and not positive otherwise (`Machine.elapsed_signed_by_order`).  This is so
whichever readings the measurement compares: ends, a start and an end, or the end of a marker that it
enqueued itself.
-/

namespace SyncPoint

namespace Elapsed

variable {start stop : UInt64}

theorem nanosBetween_nonneg (h : start ≤ stop) : 0 ≤ nanosBetween start stop := by
  have hle : start.toNat ≤ stop.toNat := UInt64.le_iff_toNat_le.1 h
  unfold nanosBetween
  omega

theorem nanosBetween_nonpos (h : stop ≤ start) : nanosBetween start stop ≤ 0 := by
  have hle : stop.toNat ≤ start.toNat := UInt64.le_iff_toNat_le.1 h
  unfold nanosBetween
  omega

end Elapsed

namespace Host

namespace World

variable {w : World} {k : ClockRef} {c d p r : CommandRef} {t u : Timestamps}

/-- A queue's earlier command had stopped when a later one started. -/
theorem Timely.stop_le_start_of_lt (h : w.Timely k) (hdc : d < c)
    (hqueue : (w.command d).queue = (w.command c).queue) (hc : w.clockOf c = k)
    (ht : w.times? d = some t) (hu : w.times? c = some u) : t.stop ≤ u.start := by
  have hd : w.clockOf d = k := by
    rw [← hc, clockOf, clockOf, hqueue]
  exact h.stop_le_start hu hc (requires_of_le (Nat.le_of_lt hdc) hqueue) (Nat.ne_of_lt hdc) hd ht

theorem Measures.in_order {first second : Bool} {start stop : UInt64} (h : w.Timely k)
    (hmeasures : w.Measures p r first second start stop) (hp : w.clockOf p = k)
    (hqueue : (w.command p).queue = (w.command r).queue) :
    (p ≤ r → start ≤ stop) ∧ (r < p → stop ≤ start) := by
  have hr : w.clockOf r = k := by
    rw [← hp, clockOf, clockOf, hqueue]
  cases hmeasures with
  | @ends t u hne _ _ ht hu =>
    constructor
    · intro hle
      have hlt := Nat.lt_of_le_of_ne hle hne
      calc t.stop ≤ u.start := h.stop_le_start_of_lt hlt hqueue hr ht hu
        _ ≤ u.stop := h.start_le_stop hu hr
    · intro hlt
      calc u.stop ≤ t.start := h.stop_le_start_of_lt hlt hqueue.symm hp hu ht
        _ ≤ t.stop := h.start_le_stop ht hp
  | @fresh t u m heq _ ht hm hmarker hu =>
    have hk : w.clockOf m = k := by
      rw [← hp, clockOf, clockOf, hmarker]
    constructor
    · intro _
      calc t.stop ≤ u.start := h.stop_le_start_of_lt hm hmarker.symm hk ht hu
        _ ≤ u.stop := h.start_le_stop hu hk
    · intro hlt
      exact absurd heq (Nat.ne_of_gt hlt)
  | @span t u _ _ ht hu =>
    constructor
    · intro hle
      rcases Nat.lt_or_eq_of_le hle with hlt | rfl
      · calc t.start ≤ t.stop := h.start_le_stop ht hp
          _ ≤ u.start := h.stop_le_start_of_lt hlt hqueue hr ht hu
          _ ≤ u.stop := h.start_le_stop hu hr
      · cases ht.symm.trans hu
        exact h.start_le_stop ht hp
    · intro hlt
      exact h.stop_le_start_of_lt hlt hqueue.symm hp hu ht

end World

namespace Machine

variable {s s' : Machine} {t : ThreadId} {a b : Event} {history : History}

/-- A measurement that succeeds compares readings of the commands to which the events were bound at
one moment of the call. If both are of one queue, and the readings of its clock never decreased, the
difference has the sign that their order in the queue calls for. -/
theorem elapsed_signed_by_order (hs : s.Reachable) (hne : a.ordinal ≠ b.ordinal) {millis : Single}
    (h : Returns t (.elapsedTime a b) s history (.ok millis) s') :
    ∃ x p r start stop, During s history x ∧
      (x.system.binding a).position? = some p ∧ (x.system.binding b).position? = some r ∧
      s'.world.Measures p r (x.system.binding a).recorded (x.system.binding b).recorded start stop ∧
      millis = Elapsed.millis (Elapsed.nanosBetween start stop) ∧
      ∀ q, (s'.world.command p).queue = q → (s'.world.command r).queue = q →
        s'.world.Steady (s'.world.queue q).clock →
          (p ≤ r → 0 ≤ Elapsed.nanosBetween start stop) ∧
            (r < p → Elapsed.nanosBetween start stop ≤ 0) := by
  obtain ⟨x, nanos, hx, houtcome, hresult⟩ := outcome_of_elapsedTime hs hne h
  cases nanos with
  | error failure => cases hresult
  | ok nanos =>
    cases hresult
    cases houtcome with
    | @compared p r _ hp hr _ _ hcompared =>
      cases hcompared with
      | @measured start stop hmeasures =>
        refine ⟨x, p, r, start, stop, hx, hp, hr, hmeasures, rfl, ?_⟩
        intro q hpq hrq hsteady
        have hreached : During s history s' := ⟨history, [], (List.append_nil _).symm, h.run⟩
        have htimely := timely_of_reachable (hreached.reachable hs) hsteady
        have hclock : s'.world.clockOf p = (s'.world.queue q).clock := by
          rw [World.clockOf, hpq]
        have horder := hmeasures.in_order htimely hclock (hpq.trans hrq.symm)
        exact ⟨fun hle => Elapsed.nanosBetween_nonneg (horder.1 hle),
          fun hlt => Elapsed.nanosBetween_nonpos (horder.2 hlt)⟩

/-! ### Two events on a queue with a clock of its own -/

namespace Stepping

def first : Event := ⟨0, .empty⟩

def second : Event := ⟨1, .empty⟩

/-- An event is bound to some work and another is recorded after more of it; the worker does both. -/
def turns : List Turn :=
  [.call 0 (.newQueue { clock := .own (Clock.stepping 5) }), .call 0 (.newEvent .empty),
    .call 0 (.newEvent .empty), .call 0 (.enqueueWork 0 []), .call 0 (.attachCommand first 0 0),
    .call 0 (.enqueueWork 0 []), .call 0 (.record second 0)] ++ List.replicate 10 (.worker 0)

def worked : Machine := reached turns (start fun _ => 0)

def measured : Machine := worked.made 0 (.elapsedTime second first)

theorem steady_measured : measured.world.Steady 1 := by
  intro clock hclock i j _ hij _
  cases hclock
  exact Clock.stepping_mono 5 hij

end Stepping

open Stepping in
theorem elapsed_signed_by_order_stepping :
    Returns 0 (.elapsedTime second first) worked (worked.asked 0 (.elapsedTime second first))
        (.ok (Elapsed.millis (-5))) measured ∧
      ∃ start stop, measured.world.Measures 1 0 true false start stop ∧
        Elapsed.nanosBetween start stop ≤ 0 := by
  have hworked : worked.Reachable := ⟨_, _, run_reached (by decide)⟩
  have h : Returns 0 (.elapsedTime second first) worked
      (worked.asked 0 (.elapsedTime second first)) (.ok (Elapsed.millis (-5))) measured :=
    returns_made (by rfl)
  obtain ⟨x, p, r, start, stop, hx, hp, hr, hmeasures, -, hsign⟩ :=
    elapsed_signed_by_order hworked (by decide) h
  -- nobody binds the events during the call
  have hsecond : x.system.binding second = worked.system.binding second :=
    hx.binding_eq (by decide)
  have hfirst : x.system.binding first = worked.system.binding first := hx.binding_eq (by decide)
  rw [hsecond] at hp hmeasures
  rw [hfirst] at hr hmeasures
  cases hp
  cases hr
  exact ⟨h, start, stop, hmeasures, (hsign 0 rfl rfl steady_measured).2 (by decide)⟩

end Machine

end Host

end SyncPoint
