import SyncPoint.Contract
import SyncPoint.Flags

/-!
# Events

An event is a synchronization point that callers bind to a position in a queue's commands.  What
never changes about it, its place in the order of construction and its flags, is a value that may
be passed around freely: every holder of that value means the same event.  What changes is its
binding, kept in one cell per event by `SyncPoint.System`.
-/

namespace SyncPoint

/-- An event: its place in the order of construction, by which it is told from every other, and
the flags it was created with. -/
structure Event where
  ordinal : Nat
  flags : EventFlags
  deriving DecidableEq, Repr

/-- What an event is bound to. -/
inductive Binding
  | unbound
  /-- The event is bound to a command. `recorded` tells a binding that a caller asked for from one
  that another operation made on the way. -/
  | bound (position : CommandRef) (recorded : Bool)
  deriving DecidableEq, Repr

namespace Binding

def position? : Binding → Option CommandRef
  | unbound => none
  | bound position _ => some position

def recorded : Binding → Bool
  | unbound => false
  | bound _ recorded => recorded

end Binding

/-- What a query reports. -/
inductive EventStatus
  | ready
  | notReady
  deriving DecidableEq, Repr

/-- The number by which a table's caller means an event. -/
structure EventHandle where
  number : Nat
  deriving DecidableEq, Repr

def EventHandle.render (handle : EventHandle) : String :=
  s!"event#{handle.number}"

/-- Names a table. -/
abbrev TableRef := Nat

/-- An event as it is shown; its binding is left out if another thread holds the event. -/
def Event.describe (event : Event) (binding : Option Binding) : String :=
  let state := match binding with
    | none => ""
    | some b => "bound: " ++ toString b.position?.isSome ++ ", recorded: " ++ toString b.recorded
        ++ ", "
  "Event \x7b ordinal: " ++ toString event.ordinal ++ ", flags: " ++ event.flags.render ++ ", "
    ++ state ++ ".. \x7d"

end SyncPoint
