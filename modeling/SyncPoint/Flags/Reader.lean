import SyncPoint.Flags
import SyncPoint.Text.Blank

/-!
# Reading flags from text

The text is a list of parts separated by bars, each a flag's name or a hexadecimal mask.  A text of
blanks alone is the empty set.  The first part that cannot be read decides the refusal.
-/

namespace SyncPoint.EventFlags

/-- Why a text is not a set of flags. -/
inductive ReadError
  | emptyPart
  /-- The part starts like a mask and is not one. -/
  | badMask
  | unknownName
  deriving DecidableEq, Repr

def ReadError.message : ReadError → String
  | emptyPart => "encountered empty flag"
  | badMask => "invalid hex flag"
  | unknownName => "unrecognized named flag"

/-- What may be written besides names. -/
inductive MaskRule
  | anyBits
  | noMasks
  deriving DecidableEq, Repr

/-- Reads one part, already trimmed. -/
def readPart (rule : MaskRule) : List Char → Except ReadError EventFlags
  | [] => .error .emptyPart
  | '0' :: 'x' :: digits =>
    match rule, Text.mask? digits with
    | .anyBits, some bits => .ok ⟨bits⟩
    | _, _ => .error .badMask
  | name =>
    match Flag.ofName? (String.ofList name) with
    | some flag => .ok (ofFlag flag)
    | none => .error .unknownName

/-- Reads the parts from left to right onto the set read so far. -/
def readParts (rule : MaskRule) (set : EventFlags) : List (List Char) → Except ReadError EventFlags
  | [] => .ok set
  | part :: rest => do
    let flags ← readPart rule (Text.trim part)
    readParts rule (set.union flags) rest

/-- Reads a set of flags. -/
def read (rule : MaskRule) (text : String) : Except ReadError EventFlags :=
  match Text.trim text.toList with
  | [] => .ok empty
  | trimmed => readParts rule empty (Text.cutAt '|' trimmed)

end SyncPoint.EventFlags
