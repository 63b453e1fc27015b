import SyncPoint.Failure

/-!
# Creation flags

An event is created with a set of flags, kept as a 32-bit mask.  Four bits name a flag; a mask may
hold any others as well, so that a set of flags can be taken over from a caller as it is and be
refused with the bits that are wrong.  `EventFlags.validate` is that check: unrecognized bits are
reported first, then the two release scopes, of which an event may ask for at most one.
-/

namespace SyncPoint

/-- The flags an event may carry. -/
inductive Flag
  | blockingSync
  /-- The event is not used for measuring. -/
  | disableTiming
  | releaseToDevice
  | releaseToSystem
  deriving DecidableEq, Repr

namespace Flag

/-- The flags in the order in which they are listed. -/
def all : List Flag := [blockingSync, disableTiming, releaseToDevice, releaseToSystem]

def mask : Flag → UInt32
  | blockingSync => 0x1
  | disableTiming => 0x2
  | releaseToDevice => 0x40000000
  | releaseToSystem => 0x80000000

def name : Flag → String
  | blockingSync => "BLOCKING_SYNC"
  | disableTiming => "DISABLE_TIMING"
  | releaseToDevice => "RELEASE_TO_DEVICE"
  | releaseToSystem => "RELEASE_TO_SYSTEM"

/-- The flag with exactly this name. -/
def ofName? (text : String) : Option Flag := all.find? fun flag => flag.name = text

end Flag

/-- A set of flags, with whatever other bits the caller put in. -/
structure EventFlags where
  bits : UInt32
  deriving DecidableEq, Repr

namespace EventFlags

/-- The empty set, which is what events are created with unless told otherwise. -/
def empty : EventFlags := ⟨0⟩

def ofFlag (flag : Flag) : EventFlags := ⟨flag.mask⟩

def union (a b : EventFlags) : EventFlags := ⟨a.bits ||| b.bits⟩

def inter (a b : EventFlags) : EventFlags := ⟨a.bits &&& b.bits⟩

def diff (a b : EventFlags) : EventFlags := ⟨a.bits &&& ~~~b.bits⟩

def symmDiff (a b : EventFlags) : EventFlags := ⟨a.bits ^^^ b.bits⟩

def known : EventFlags := Flag.all.foldl (fun set flag => set.union (ofFlag flag)) empty

/-- The bits that name no flag. -/
def unknown (a : EventFlags) : EventFlags := a.diff known

/-- The set without the bits that name no flag. -/
def truncate (a : EventFlags) : EventFlags := a.inter known

def complement (a : EventFlags) : EventFlags := known.diff a

def isEmpty (a : EventFlags) : Bool := a.bits = 0

def contains (a b : EventFlags) : Bool := a.inter b = b

def intersects (a b : EventFlags) : Bool := !(a.inter b).isEmpty

def isAll (a : EventFlags) : Bool := a.contains known

def timingDisabled (a : EventFlags) : Bool := a.contains (ofFlag .disableTiming)

/-- The flags in the set, in the listed order. -/
def flags (a : EventFlags) : List Flag := Flag.all.filter fun flag => a.contains (ofFlag flag)

/-- The set taken apart: one part for each flag, and the bits that name no flag together in a
last part. -/
def parts (a : EventFlags) : List EventFlags :=
  a.flags.map ofFlag ++ if a.unknown.isEmpty then [] else [a.unknown]

/-- The mask as a set, if it has no bit that names no flag. -/
def ofBits? (bits : UInt32) : Option EventFlags :=
  if (EventFlags.mk bits).unknown.isEmpty then some ⟨bits⟩ else none

def releaseScopes : EventFlags := (ofFlag .releaseToDevice).union (ofFlag .releaseToSystem)

/-- Accepts the sets an event can be created with. -/
def validate (a : EventFlags) : Except Failure Unit :=
  if !a.unknown.isEmpty then .error (.unrecognizedFlags a.unknown.bits)
  else if a.contains releaseScopes then .error .conflictingReleaseScopes
  else .ok ()

/-- Takes over a mask from a caller, if an event can be created with it. -/
def ofRaw (bits : UInt32) : Except Failure EventFlags :=
  (validate ⟨bits⟩).map fun _ => ⟨bits⟩

/-- A set as it is shown: the names of its flags and the other bits as one number. -/
def render (a : EventFlags) : String :=
  let rest := if a.unknown.isEmpty then [] else [Text.showMask a.unknown.bits]
  let shown := if a.isEmpty then [Text.showMask 0] else a.flags.map Flag.name ++ rest
  "EventFlags(" ++ " | ".intercalate shown ++ ")"

end EventFlags

end SyncPoint
