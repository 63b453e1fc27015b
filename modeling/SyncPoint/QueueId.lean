/-!
# Queue identifiers
-/

namespace SyncPoint

/-- Names a queue. Two commands belong to one queue when their identifiers agree. -/
structure QueueId where
  value : UInt64
  deriving DecidableEq, Repr

namespace QueueId

def order (a b : QueueId) : Ordering := compare a.value b.value

def render (id : QueueId) : String :=
  s!"queue#{id.value}"

def describe (id : QueueId) : String :=
  s!"QueueId({id.value})"

end QueueId

end SyncPoint
