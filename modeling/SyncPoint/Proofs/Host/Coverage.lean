import SyncPoint.Proofs.Host.Dependence

/-!
# What a queue covers

Two ways in which a command can stand for others.  A queue covers a command once whatever it accepts
later requires that command; this is what waiting for an event brings about.  A command captures
what its queue accepted up to some moment if none of that is behind it; this is what recording an
event brings about.  Both last.
-/

namespace SyncPoint.Host.World

/-- The queue has a command that requires `c`, so whatever it accepts from now on requires `c`. -/
def Covers (w : World) (q : QueueRef) (c : CommandRef) : Prop :=
  ∃ m, m < w.commands.length ∧ (w.command m).queue = q ∧ w.Requires m c

/-- `p` is on the queue, and not before any that is there of the first `n` commands. -/
def Captures (w : World) (n : Nat) (q : QueueRef) (p : CommandRef) : Prop :=
  p < w.commands.length ∧ (w.command p).queue = q ∧ ∀ d, d < n → (w.command d).queue = q → d ≤ p

variable {w w' : World} {c d p : CommandRef} {n : Nat} {q r : QueueRef}

theorem Covers.grows (h : w.Covers q c) (hsound : w.Sound) (hgrows : w.Grows w') :
    w'.Covers q c := by
  obtain ⟨m, hm, hqueue, hrequires⟩ := h
  refine ⟨m, Nat.lt_of_lt_of_le hm hgrows.commands_le, ?_,
    hsound.requires_grows hgrows hm hrequires⟩
  rw [hgrows.queue_command hm, hqueue]

theorem Covers.trans (h : w.Covers q c) (hrequires : w.Requires c d) : w.Covers q d := by
  obtain ⟨m, hm, hqueue, hc⟩ := h
  exact ⟨m, hm, hqueue, hc.trans hrequires⟩

/-- Commands that a queue accepts later require what it covers. -/
theorem Covers.requires (h : w.Covers q c) (hsound : w.Sound) (hgrows : w.Grows w')
    (hd : w.commands.length ≤ d) (hqueue : (w'.command d).queue = q) : w'.Requires d c := by
  obtain ⟨m, hm, hmq, hrequires⟩ := h
  refine .head (.inr ⟨Nat.lt_of_lt_of_le hm hd, ?_⟩) (hsound.requires_grows hgrows hm hrequires)
  rw [hgrows.queue_command hm, hmq, hqueue]

theorem Captures.grows (h : w.Captures n q p) (hn : n ≤ w.commands.length)
    (hgrows : w.Grows w') : w'.Captures n q p := by
  obtain ⟨hp, hqueue, hbehind⟩ := h
  refine ⟨Nat.lt_of_lt_of_le hp hgrows.commands_le, by rw [hgrows.queue_command hp, hqueue], ?_⟩
  intro d hd hdq
  rw [hgrows.queue_command (Nat.lt_of_lt_of_le hd hn)] at hdq
  exact hbehind d hd hdq

/-- A command requires what it captures. -/
theorem Captures.requires (h : w.Captures n q p) (hd : d < n) (hqueue : (w.command d).queue = q) :
    w.Requires p d :=
  requires_of_le (h.2.2 d hd hqueue) (hqueue.trans h.2.1.symm)

/-- The newest command of a queue captures all that the queue accepted. -/
theorem Sound.captures_last (h : w.Sound) (hn : n ≤ w.commands.length)
    (hlast : (w.queue q).last = some p) : w.Captures n q p := by
  rw [h.newest q] at hlast
  obtain ⟨hp, hqueue⟩ := mem_accepted.1 (List.mem_of_getLast? hlast)
  refine ⟨hp, hqueue, fun d hd hdq => ?_⟩
  have hmem : d ∈ w.accepted q := mem_accepted.2 ⟨Nat.lt_of_lt_of_le hd hn, hdq⟩
  obtain ⟨before, hsplit⟩ := List.getLast?_eq_some_iff.1 hlast
  have hsorted := w.accepted_sorted q
  rw [hsplit] at hmem hsorted
  rcases List.mem_append.1 hmem with hbefore | hself
  · exact Nat.le_of_lt ((List.pairwise_append.1 hsorted).2.2 d hbefore p (by simp))
  · exact Nat.le_of_eq (List.mem_singleton.1 hself)

/-- A command captures all that its queue accepted before it. -/
theorem captures_submit {command : Command} (hn : n ≤ w.commands.length)
    (hp : (w.submit command).value = .ok p) :
    (w.submit command).state.Captures n command.queue p := by
  have htakes := takes_of_value_submit hp
  rw [value_submit htakes] at hp
  cases hp
  refine ⟨by simp [htakes], by rw [command_submit_self htakes], fun d hd _ => ?_⟩
  exact Nat.le_of_lt (Nat.lt_of_lt_of_le hd hn)

/-- A queue covers what a command waits for that it accepted. -/
theorem covers_submit {command : Command} (hp : (w.submit command).value = .ok p)
    (hc : c ∈ command.waitList) : (w.submit command).state.Covers command.queue c := by
  have htakes := takes_of_value_submit hp
  rw [value_submit htakes] at hp
  cases hp
  have hself := command_submit_self htakes
  refine ⟨w.commands.length, by simp [htakes], by rw [hself], .single (.inl ?_)⟩
  rw [hself]
  exact hc

/-- A queue covers its own commands. -/
theorem covers_self (hc : c < w.commands.length) : w.Covers (w.command c).queue c :=
  ⟨c, hc, rfl, .refl⟩

/-- Identifiers tell queues apart, also when they are read one after the other. -/
theorem Sound.eq_of_id_eq (h : w'.Sound) (hgrows : w.Grows w') (hq : q < w.queues.length)
    (hr : r < w'.queues.length) (hid : (w.queue q).id = (w'.queue r).id) : q = r := by
  have hq' := Nat.lt_of_lt_of_le hq hgrows.queues_le
  rw [← (hgrows.queue q hq).1, h.numbered q hq', h.numbered r hr] at hid
  have hnumber : (UInt64.ofNat (q + 1)).toNat = (UInt64.ofNat (r + 1)).toNat :=
    congrArg (fun id : QueueId => id.value.toNat) hid
  rw [UInt64.toNat_ofNat_of_lt' (Nat.lt_of_le_of_lt hq' h.few),
    UInt64.toNat_ofNat_of_lt' (Nat.lt_of_le_of_lt hr h.few)] at hnumber
  exact Nat.succ.inj hnumber

end SyncPoint.Host.World
