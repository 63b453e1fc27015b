import Mathlib.Tactic.ByContra
import SyncPoint.System
import SyncPoint.Text.Hexadecimal

/-!
# Flags that events are created with

A mask becomes an event in three ways: a caller takes it over as a set of flags, an event is
constructed with such a set, and a table creates an event from the mask.  Each of them looks at the
mask for itself, and they agree (`creation_agrees`).  A mask that is refused is refused by all of
them for one reason (`EventFlags.Refused`), before anything is asked for: the program of the
operation is over at once, whatever the table, the threads and the engine are like.

What a mask holds is read off its bits here (`EventFlags.bit`) and not off the set operations by
which the check is written.
-/

namespace SyncPoint

/-! ## Masks by their bits -/

/-- The place of a flag's bit in a mask. -/
def Flag.index : Flag → Nat
  | blockingSync => 0
  | disableTiming => 1
  | releaseToDevice => 30
  | releaseToSystem => 31

theorem Flag.toBitVec_mask (flag : Flag) : flag.mask.toBitVec = BitVec.twoPow 32 flag.index := by
  cases flag <;> rfl

theorem Flag.index_lt (flag : Flag) : flag.index < 32 := by
  cases flag <;> decide

namespace EventFlags

variable {a b : EventFlags} {flag : Flag} {i : Nat}

/-- Whether the mask has the bit at this place. -/
def bit (a : EventFlags) (i : Nat) : Bool := a.bits.toBitVec.getLsbD i

instance : Membership Flag EventFlags where
  mem a flag := a.bit flag.index = true

theorem mem_iff : flag ∈ a ↔ a.bit flag.index = true := .rfl

/-- Sets are told apart by their bits. -/
theorem ext_bit (h : ∀ i, a.bit i = b.bit i) : a = b := by
  cases a
  cases b
  congr 1
  exact UInt32.eq_of_toBitVec_eq (BitVec.eq_of_getLsbD_eq fun i _ => h i)

@[simp] theorem bit_empty (i : Nat) : empty.bit i = false := by
  simp [bit, empty]

@[simp] theorem bit_ofFlag (flag : Flag) (i : Nat) :
    (ofFlag flag).bit i = decide (flag.index = i) := by
  rw [bit, ofFlag, flag.toBitVec_mask, BitVec.getLsbD_twoPow]
  have hlt := flag.index_lt
  by_cases hi : flag.index = i
  · simp [← hi, hlt]
  · simp [hi]

@[simp] theorem bit_union (a b : EventFlags) (i : Nat) :
    (a.union b).bit i = (a.bit i || b.bit i) := by
  simp [bit, union]

@[simp] theorem bit_inter (a b : EventFlags) (i : Nat) :
    (a.inter b).bit i = (a.bit i && b.bit i) := by
  simp [bit, inter]

@[simp] theorem bit_diff (a b : EventFlags) (i : Nat) :
    (a.diff b).bit i = (a.bit i && !b.bit i) := by
  cases ha : a.bit i with
  | false => simpa [bit, diff] using fun h => absurd h (by simpa [bit] using ha)
  | true =>
    have hlt : i < 32 := BitVec.lt_of_getLsbD ha
    simp only [bit] at ha
    simp [bit, diff, ha, hlt]

@[simp] theorem mem_union : flag ∈ a.union b ↔ flag ∈ a ∨ flag ∈ b := by
  simp [mem_iff]

theorem isEmpty_iff : a.isEmpty = true ↔ ∀ i, a.bit i = false := by
  have hempty : a.isEmpty = true ↔ a = empty := by
    cases a
    simp [isEmpty, empty]
  rw [hempty]
  exact ⟨fun h i => by rw [h, bit_empty], fun h => ext_bit fun i => by rw [h, bit_empty]⟩

theorem contains_iff : a.contains b = true ↔ ∀ i, b.bit i = true → a.bit i = true := by
  rw [contains, decide_eq_true_iff]
  constructor
  · intro h i hi
    rw [← h, bit_inter, Bool.and_eq_true] at hi
    exact hi.1
  · intro h
    refine ext_bit fun i => ?_
    rw [bit_inter]
    cases hi : b.bit i with
    | false => rw [Bool.and_false]
    | true => rw [h i hi, Bool.and_self]

/-- The recognized bits are those of the flags. -/
theorem bit_known : known.bit i = true ↔ ∃ flag : Flag, flag.index = i := by
  have hbits : known.bit i = true ↔ ∃ flag ∈ Flag.all, flag.index = i := by
    simp [known, Flag.all, or_assoc]
  rw [hbits]
  exact ⟨fun ⟨flag, _, h⟩ => ⟨flag, h⟩, fun ⟨flag, h⟩ => ⟨flag, by cases flag <;> decide, h⟩⟩

/-- The bit at this place names no flag. -/
def Unnamed (i : Nat) : Prop := ∀ flag : Flag, flag.index ≠ i

theorem bit_unknown : a.unknown.bit i = true ↔ a.bit i = true ∧ Unnamed i := by
  have hknown : known.bit i = false ↔ Unnamed i := by
    rw [← Bool.not_eq_true, bit_known, not_exists]
    rfl
  rw [unknown, bit_diff, Bool.and_eq_true, Bool.not_eq_true', hknown]

/-! ## Acceptance and refusal -/

/-- An event can be created with these flags. -/
structure Acceptable (a : EventFlags) : Prop where
  recognized : ∀ i, a.bit i = true → ∃ flag : Flag, flag.index = i
  one_scope : ¬ (Flag.releaseToDevice ∈ a ∧ Flag.releaseToSystem ∈ a)

/-- Why no event can be created with these flags. Bits that name no flag come first, and the failure
tells just these. -/
inductive Refused (a : EventFlags) : Failure → Prop
  | unrecognized {bits : UInt32} (hsome : ∃ i, a.bit i = true ∧ Unnamed i)
      (hbits : ∀ i, (mk bits).bit i = true ↔ a.bit i = true ∧ Unnamed i) :
      Refused a (.unrecognizedFlags bits)
  | scopes (hrecognized : ∀ i, a.bit i = true → ∃ flag : Flag, flag.index = i)
      (hdevice : Flag.releaseToDevice ∈ a) (hsystem : Flag.releaseToSystem ∈ a) :
      Refused a .conflictingReleaseScopes

theorem isEmpty_unknown_iff :
    a.unknown.isEmpty = true ↔ ∀ i, a.bit i = true → ∃ flag : Flag, flag.index = i := by
  rw [isEmpty_iff]
  constructor
  · intro h i hi
    by_contra hnone
    have hunknown := bit_unknown.2 ⟨hi, not_exists.1 hnone⟩
    rw [h i] at hunknown
    cases hunknown
  · intro h i
    rw [← Bool.not_eq_true, bit_unknown]
    rintro ⟨hi, hunnamed⟩
    obtain ⟨flag, hflag⟩ := h i hi
    exact hunnamed flag hflag

theorem contains_releaseScopes_iff : a.contains releaseScopes = true ↔
    Flag.releaseToDevice ∈ a ∧ Flag.releaseToSystem ∈ a := by
  rw [contains_iff]
  simp [releaseScopes, mem_iff, or_imp, forall_and]

/-- The check accepts what is acceptable. -/
theorem validate_of_acceptable (h : a.Acceptable) : a.validate = .ok () := by
  have hunknown := isEmpty_unknown_iff.2 h.recognized
  have hscopes : a.contains releaseScopes = false := by
    rw [← Bool.not_eq_true, contains_releaseScopes_iff]
    exact h.one_scope
  rw [validate, hunknown, hscopes]
  rfl

/-- It tells why it refuses the rest. -/
theorem refused_of_not_acceptable (h : ¬ a.Acceptable) :
    ∃ failure, Refused a failure ∧ a.validate = .error failure := by
  cases hunknown : a.unknown.isEmpty with
  | false =>
    refine ⟨_, .unrecognized ?_ fun i => bit_unknown, by rw [validate, hunknown]; rfl⟩
    by_contra hnone
    have hempty : a.unknown.isEmpty = true := isEmpty_iff.2 fun i => by
      rw [← Bool.not_eq_true, bit_unknown]
      exact fun hi => hnone ⟨i, hi⟩
    rw [hunknown] at hempty
    cases hempty
  | true =>
    have hrecognized := isEmpty_unknown_iff.1 hunknown
    have hboth : Flag.releaseToDevice ∈ a ∧ Flag.releaseToSystem ∈ a := by
      by_contra hnot
      exact h ⟨hrecognized, hnot⟩
    refine ⟨_, .scopes hrecognized hboth.1 hboth.2, ?_⟩
    rw [validate, hunknown, contains_releaseScopes_iff.2 hboth]
    rfl

/-- There is one reason to refuse a set. -/
theorem Refused.unique {failure failure' : Failure} (h : Refused a failure)
    (h' : Refused a failure') : failure = failure' := by
  have happart : (∃ i, a.bit i = true ∧ Unnamed i) →
      ¬ ∀ i, a.bit i = true → ∃ flag : Flag, flag.index = i := by
    rintro ⟨i, hi, hunnamed⟩ hrecognized
    obtain ⟨flag, hflag⟩ := hrecognized i hi
    exact hunnamed flag hflag
  cases h with
  | unrecognized hsome hbits =>
    cases h' with
    | unrecognized _ hbits' =>
      have hsame := ext_bit fun i => Bool.eq_iff_iff.2 ((hbits i).trans (hbits' i).symm)
      rw [(mk.inj hsame)]
    | scopes hrecognized => exact absurd hrecognized (happart hsome)
  | scopes hrecognized =>
    cases h' with
    | unrecognized hsome => exact absurd hrecognized (happart hsome)
    | scopes => rfl

theorem Refused.kind {failure : Failure} (h : Refused a failure) :
    failure.kind = .invalidValue := by
  cases h <;> rfl

theorem ofRaw_eq_ok_iff {raw : UInt32} : ofRaw raw = .ok ⟨raw⟩ ↔ Acceptable ⟨raw⟩ := by
  constructor
  · intro h
    by_contra hnot
    obtain ⟨failure, -, hfailed⟩ := refused_of_not_acceptable hnot
    rw [ofRaw, hfailed] at h
    cases h
  · intro h
    rw [ofRaw, validate_of_acceptable h]
    rfl

theorem exists_ofRaw_eq_error_iff {raw : UInt32} :
    (∃ failure, ofRaw raw = .error failure) ↔ ¬ Acceptable ⟨raw⟩ := by
  constructor
  · rintro ⟨failure, hfailed⟩ hacceptable
    rw [ofRaw_eq_ok_iff.2 hacceptable] at hfailed
    cases hfailed
  · intro h
    obtain ⟨failure, -, hfailed⟩ := refused_of_not_acceptable h
    exact ⟨failure, by rw [ofRaw, hfailed]; rfl⟩

/-- Fewer flags are acceptable too. -/
theorem Acceptable.of_subset (h : a.Acceptable) (hsubset : ∀ i, b.bit i = true → a.bit i = true) :
    b.Acceptable :=
  ⟨fun i hi => h.recognized i (hsubset i hi),
    fun hboth => h.one_scope ⟨hsubset _ hboth.1, hsubset _ hboth.2⟩⟩

/-- Only the release scopes stand in the way of putting two sets together. -/
theorem Acceptable.union_iff (ha : a.Acceptable) (hb : b.Acceptable) :
    (a.union b).Acceptable ↔ ¬ ((Flag.releaseToDevice ∈ a ∨ Flag.releaseToDevice ∈ b) ∧
      (Flag.releaseToSystem ∈ a ∨ Flag.releaseToSystem ∈ b)) := by
  simp only [← mem_union]
  refine ⟨Acceptable.one_scope, fun hscopes => ⟨fun i hi => ?_, hscopes⟩⟩
  rw [bit_union, Bool.or_eq_true] at hi
  exact hi.elim (ha.recognized i) (hb.recognized i)

end EventFlags

/-! ## The text of a refusal -/

namespace Text

/-- The value of a hexadecimal digit as it is written. -/
theorem hexValue?_digitChar {n : Nat} (h : n < 16) : hexValue? n.digitChar = some n := by
  have hall : ∀ k : Fin 16, hexValue? k.val.digitChar = some k.val := by decide
  exact hall ⟨n, h⟩

theorem hexNumber?_append (value : Nat) (first second : List Char) :
    hexNumber? value (first ++ second) =
      (hexNumber? value first).bind fun read => hexNumber? read second := by
  induction first generalizing value with
  | nil => rfl
  | cons c rest ih =>
    simp only [List.cons_append, hexNumber?]
    cases hexValue? c with
    | none => rfl
    | some digit => exact ih _

/-- A number is read back from its digits. -/
theorem hexNumber?_toDigits (n : Nat) : hexNumber? 0 (Nat.toDigits 16 n) = some n := by
  induction n using Nat.strongRecOn with
  | _ n ih =>
    rw [Nat.toDigits_eq_if (by decide)]
    split
    next hlt => simp [hexNumber?, hexValue?_digitChar hlt]
    next hge =>
      have hdigit : n % 16 < 16 := Nat.mod_lt _ (by decide)
      rw [hexNumber?_append, ih (n / 16) (by omega)]
      simp [hexNumber?, hexValue?_digitChar hdigit]
      omega

/-- A mask is read back from its digits. -/
theorem mask?_toDigits (bits : UInt32) : mask? (Nat.toDigits 16 bits.toNat) = some bits := by
  have hread := hexNumber?_toDigits bits.toNat
  -- a plus in front would not have been read
  have hplus : dropPlus (Nat.toDigits 16 bits.toNat) = Nat.toDigits 16 bits.toNat := by
    unfold dropPlus
    split
    next heq =>
      rw [heq] at hread
      cases hread
    next => rfl
  rw [mask?, hplus]
  split
  next heq => exact absurd heq Nat.toDigits_ne_nil
  next => simp [hread, bits.toNat_lt]

end Text

/-- The refusal of unrecognized bits names just these, as a mask that can be read. -/
theorem Failure.message_unrecognizedFlags (bits : UInt32) :
    ∃ digits : String, (Failure.unrecognizedFlags bits).message =
      "invalid value: unrecognized event flag bits 0x" ++ digits ∧
        Text.mask? digits.toList = some bits := by
  refine ⟨Text.hexDigits bits.toNat, ?_, ?_⟩
  · have htext : "invalid value: " ++ ("unrecognized event flag bits " ++ "0x") =
        "invalid value: unrecognized event flag bits 0x" := by decide
    rw [← htext, String.append_assoc, String.append_assoc]
    rfl
  · rw [Text.hexDigits, String.toList_ofList]
    exact Text.mask?_toDigits bits

/-! ## Creating an event -/

open EventFlags in
/-- A set that is acceptable makes an event with just these flags. -/
theorem Event.create_of_acceptable {flags : EventFlags} (h : flags.Acceptable) :
    (Event.create flags).run = .ask (.newEvent flags) fun event => .done (.ok event) := by
  rw [Event.create, validate_of_acceptable h]
  rfl

/-- A set that is refused makes none, and nothing is asked for. -/
theorem Event.create_of_refused {flags : EventFlags} {failure : Failure}
    (h : flags.validate = .error failure) : (Event.create flags).run = .done (.error failure) := by
  rw [Event.create, h]
  rfl

/-- A table creates an event from an acceptable mask before it looks whether there is room. -/
theorem Table.create_of_acceptable {raw : UInt32} (h : EventFlags.Acceptable ⟨raw⟩)
    (ref : TableRef) : (Table.create ref raw).run = .ask (.newEvent ⟨raw⟩) fun event =>
      .ask (.register ref event) fun
        | none => .done (.error .tableFull)
        | some handle => .ask (.log (.created handle ⟨raw⟩)) fun _ => .done (.ok handle) := by
  rw [Table.create, EventFlags.ofRaw_eq_ok_iff.2 h]
  show (Event.create ⟨raw⟩).run.andThen _ = _
  rw [Event.create_of_acceptable h]
  refine congrArg (Program.ask (.newEvent ⟨raw⟩)) (funext fun event => ?_)
  refine congrArg (Program.ask (.register ref event)) (funext fun answer => ?_)
  cases answer <;> rfl

/-- From a mask that is refused it creates none, and nothing is asked for. -/
theorem Table.create_of_refused {raw : UInt32} {failure : Failure}
    (h : EventFlags.ofRaw raw = .error failure) (ref : TableRef) :
    (Table.create ref raw).run = .done (.error failure) := by
  rw [Table.create, h]
  rfl

section Running

variable {σ : Type} (engine : Engine σ) (t : ThreadId) (system : System σ)

theorem Event.run_create {flags : EventFlags} (h : flags.Acceptable) :
    (Event.create flags).run.run (System.serve engine t) system =
      some (.ok ⟨system.cells.length, flags⟩, { system with cells := system.cells ++ [{}] }) := by
  rw [Event.create_of_acceptable h]
  rfl

/-- In a table with room, the new event is filed under the next number, and nothing else of the
system changes but the log. -/
theorem Table.run_create {raw : UInt32} (h : EventFlags.Acceptable ⟨raw⟩) {ref : TableRef}
    (hroom : (system.table ref).isFull = false) :
    (Table.create ref raw).run.run (System.serve engine t) system =
      some (.ok (system.table ref).nextHandle,
        { system with
          cells := system.cells ++ [{}]
          tables := system.tables.set ref
            { system.table ref with
              next := (system.table ref).next + 1
              events := (system.table ref).events ++
                [((system.table ref).nextHandle, ⟨system.cells.length, ⟨raw⟩⟩)] }
          log := system.log ++ [.created (system.table ref).nextHandle ⟨raw⟩] }) := by
  have hinsert : (system.table ref).insert? ⟨system.cells.length, ⟨raw⟩⟩ = some (_, _) :=
    if_neg (by rw [hroom]; exact Bool.false_ne_true)
  have htable : ({ system with cells := system.cells ++ [{}] } : System σ).table ref =
    system.table ref := rfl
  rw [Table.create_of_acceptable h]
  simp only [Program.run, System.serve, htable, hinsert]
  rfl

end Running

/-- What becomes of a mask on each of the three ways to an event. -/
structure CreatedAlike (raw : UInt32) : Prop where
  /-- A mask that is acceptable, and no other, is taken over with the bits it has. -/
  taken : EventFlags.ofRaw raw = .ok ⟨raw⟩ ↔ EventFlags.Acceptable ⟨raw⟩
  /-- Of such a mask an event is constructed that has just these flags. -/
  constructed : EventFlags.Acceptable ⟨raw⟩ → ∀ (σ : Type) (engine : Engine σ) t system,
    (Event.create ⟨raw⟩).run.run (System.serve engine t) system =
      some (.ok ⟨system.cells.length, ⟨raw⟩⟩, { system with cells := system.cells ++ [{}] })
  /-- And a table that has room creates one. -/
  created : EventFlags.Acceptable ⟨raw⟩ → ∀ (σ : Type) (engine : Engine σ) t system ref,
    (system.table ref).isFull = false →
      (Table.create ref raw).run.run (System.serve engine t) system =
        some (.ok (system.table ref).nextHandle,
          { system with
            cells := system.cells ++ [{}]
            tables := system.tables.set ref
              { system.table ref with
                next := (system.table ref).next + 1
                events := (system.table ref).events ++
                  [((system.table ref).nextHandle, ⟨system.cells.length, ⟨raw⟩⟩)] }
            log := system.log ++ [.created (system.table ref).nextHandle ⟨raw⟩] })
  /-- Any other mask is refused on all three ways for one and the same reason. Nothing is asked for
  then, so that no event is constructed and neither an ordinal nor a number of a table, full or not,
  is used. -/
  refused : ¬ EventFlags.Acceptable ⟨raw⟩ → ∃ failure, EventFlags.Refused ⟨raw⟩ failure ∧
    failure.kind = .invalidValue ∧ EventFlags.ofRaw raw = .error failure ∧
      (Event.create ⟨raw⟩).run = .done (.error failure) ∧
        ∀ ref, (Table.create ref raw).run = .done (.error failure)
  /-- The reason names all bits that are no flag, and only these, if there are any. -/
  named : ∀ bits, EventFlags.Refused ⟨raw⟩ (.unrecognizedFlags bits) →
    ∃ digits : String, (Failure.unrecognizedFlags bits).message =
      "invalid value: unrecognized event flag bits 0x" ++ digits ∧
        Text.mask? digits.toList = some bits
  /-- There is one reason only. -/
  unambiguous : ∀ failure failure', EventFlags.Refused ⟨raw⟩ failure →
    EventFlags.Refused ⟨raw⟩ failure' → failure = failure'
  /-- Fewer flags than are accepted are accepted. -/
  subset : EventFlags.ofRaw raw = .ok ⟨raw⟩ → ∀ part : UInt32,
    (∀ i, EventFlags.bit ⟨part⟩ i = true → EventFlags.bit ⟨raw⟩ i = true) →
      EventFlags.ofRaw part = .ok ⟨part⟩
  /-- Two masks that are accepted are refused together only if they have both release scopes between
  them. -/
  union : EventFlags.ofRaw raw = .ok ⟨raw⟩ → ∀ other : UInt32,
    EventFlags.ofRaw other = .ok ⟨other⟩ →
      ((∃ failure, EventFlags.ofRaw (raw ||| other) = .error failure) ↔
        (Flag.releaseToDevice ∈ EventFlags.mk raw ∨ Flag.releaseToDevice ∈ EventFlags.mk other) ∧
          (Flag.releaseToSystem ∈ EventFlags.mk raw ∨ Flag.releaseToSystem ∈ EventFlags.mk other))

/-- The three ways from a mask to an event agree on every mask. -/
theorem creation_agrees (raw : UInt32) : CreatedAlike raw where
  taken := EventFlags.ofRaw_eq_ok_iff
  constructed h _ engine t system := Event.run_create engine t system h
  created h _ engine t system _ hroom := Table.run_create engine t system h hroom
  refused h := by
    obtain ⟨failure, hrefused, hvalidate⟩ := EventFlags.refused_of_not_acceptable h
    have hraw : EventFlags.ofRaw raw = .error failure := by
      rw [EventFlags.ofRaw, hvalidate]
      rfl
    exact ⟨failure, hrefused, hrefused.kind, hraw, Event.create_of_refused hvalidate,
      Table.create_of_refused hraw⟩
  named bits _ := Failure.message_unrecognizedFlags bits
  unambiguous _ _ h h' := h.unique h'
  subset h part hpart :=
    EventFlags.ofRaw_eq_ok_iff.2 ((EventFlags.ofRaw_eq_ok_iff.1 h).of_subset hpart)
  union h other hother := by
    rw [EventFlags.ofRaw_eq_ok_iff] at h hother
    rw [EventFlags.exists_ofRaw_eq_error_iff]
    exact (not_congr (h.union_iff hother)).trans not_not

/-- Bits that are no flag are told before both release scopes are. -/
example : EventFlags.ofRaw 0xC0000014 = .error (.unrecognizedFlags 0x14) := rfl

end SyncPoint
