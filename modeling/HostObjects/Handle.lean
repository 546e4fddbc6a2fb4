/-!
# Handles

A handle names an object: the heap that allocated it, the slot it lies in and the generation of the
slot at that time. Handles are plain data. Holding one keeps nothing alive, and whether it still
names its object is a question to the heap.
-/

namespace HostObjects

/-- The identity of a heap; no two heaps share one. -/
structure HeapId where
  /-- The number of the heap in order of creation. -/
  number : Nat
deriving DecidableEq, Hashable, Inhabited

/-- A reference to an object of some heap. -/
structure Handle where
  /-- The heap that allocated the object. -/
  heap : HeapId
  index : Nat
  /-- The generation of the slot when the object was allocated. -/
  generation : UInt32
deriving DecidableEq, Hashable, Inhabited

end HostObjects
