import HostObjects.Heap.Counted

/-!
# Heaps

A heap is a table of slots. A slot is empty or holds an object, and counts how often it was
emptied; a handle is valid as long as its slot holds an object and has the handle's generation. So
a handle outlives its object without ever naming another one, until the 32-bit generation has come
round.

Beside the slots a heap keeps its roots, of six kinds: the stack of the views that are open,
persistent roots, pinned objects, the two intrinsic prototypes, the shared prototypes of classes in
use, and host nodes declared alive. External edges are references between objects and host nodes
that the host declares. Pins, edges and host roots are counted, in tables that hold how often each
was added and not taken back.

Objects that a collection removed wait in `reaped`, oldest first, until the host has run their
finalizers.
-/

namespace HostObjects

/-- The memory limits of a heap. -/
structure Limits where
  /-- The most bytes that objects may count. -/
  maxBytes : Nat
  /-- The count beyond which an allocation asks for a collection. -/
  threshold : Nat
deriving DecidableEq

namespace Limits

/-- 256 MiB, with collections from 64 MiB on. -/
def standard : Limits := ⟨256 * 1024 * 1024, 64 * 1024 * 1024⟩

end Limits

/-- When the collections run that an allocation asks for. -/
inductive CollectionMode where
  /-- Within the allocation. -/
  | synchronous
  /-- On the next turn of the run loop. -/
  | deferred
deriving DecidableEq

/-- A place for one object. -/
structure Slot where
  /-- How often the slot was emptied. -/
  generation : UInt32
  occupant : Option HostObject
  /-- The bytes it counts. -/
  bytes : Nat

namespace Slot

/-- The empty slot with the next generation. -/
def vacate (s : Slot) : Slot := ⟨s.generation + 1, none, 0⟩

/-- The slot with an object in it. -/
def occupy (s : Slot) (o : HostObject) : Slot := ⟨s.generation, some o, o.size⟩

/-- Whether an object lies in the slot. -/
def isOccupied (s : Slot) : Bool := s.occupant.isSome

end Slot

/-- An object taken out of its slot, whose finalizers are yet to run. -/
structure Reaped where
  /-- The handle under which it was known. -/
  handle : Handle
  object : HostObject

/-- A garbage-collected table of objects. -/
structure Heap where
  id : HeapId
  limits : Limits
  mode : CollectionMode
  /-- Whether a collection waits for the run loop. -/
  scheduled : Bool
  /-- The bytes all objects count. -/
  used : Nat
  /-- How many collections have run. -/
  collections : Nat
  slots : Array Slot
  /-- One mark a slot, set only while a collection runs. -/
  marks : Array Bool
  /-- The empty slots; the first is taken next. -/
  free : List Nat
  /-- The values rooted by open views, oldest first. -/
  stack : Array Value
  /-- The persistent roots. -/
  roots : Array (Option Value)
  /-- The empty places among the persistent roots; the first is taken next. -/
  freeRoots : List Nat
  /-- The pinned objects, and how often each is pinned. -/
  pins : Counted Handle
  /-- The external edges, and how often each is registered. -/
  edges : EdgeTable
  /-- The host nodes declared alive, and how often each was declared. -/
  hostRoots : Counted HostNode
  /-- The shared prototypes built so far. -/
  classPrototypes : List (ClassId × Handle)
  /-- The objects whose finalizers are yet to run. -/
  reaped : List Reaped

/-- An operation on a heap that may fail; what it did before a failure stays done. -/
abbrev HeapM := ExceptT Fault (StateM Heap)

namespace Heap

/-! ### Making a heap -/

/-- The slot that every plain object's prototype lies in. -/
def objectPrototypeIndex : Nat := 0

/-- The slot that every function's prototype lies in. -/
def functionPrototypeIndex : Nat := 1

/-- The prototype of plain objects. -/
def objectPrototype (h : Heap) : Handle := ⟨h.id, objectPrototypeIndex, 0⟩

/-- The prototype of functions and constructors. -/
def functionPrototype (h : Heap) : Handle := ⟨h.id, functionPrototypeIndex, 0⟩

/-- The two objects a heap starts with. -/
def intrinsics (id : HeapId) : List HostObject :=
  [.ordinary none, .ordinary (some ⟨id, objectPrototypeIndex, 0⟩)]

/-- A heap that holds the two intrinsic prototypes. -/
def new (id : HeapId) (limits : Limits) (mode : CollectionMode) : Heap where
  id := id
  limits := limits
  mode := mode
  scheduled := false
  used := (intrinsics id).foldl (fun used o => used + o.size) 0
  collections := 0
  slots := ((intrinsics id).map fun o => ⟨0, some o, o.size⟩).toArray
  marks := #[false, false]
  free := []
  stack := #[]
  roots := #[]
  freeRoots := []
  pins := ∅
  edges := ∅
  hostRoots := ∅
  classPrototypes := []
  reaped := []

instance : Inhabited Heap := ⟨new ⟨0⟩ .standard .synchronous⟩

/-! ### Looking up handles -/

/-- The object that lies in a slot, if the slot has the generation. -/
def occupant? (h : Heap) (index : Nat) (generation : UInt32) : Option HostObject :=
  match h.slots[index]? with
  | some s => if s.generation = generation then s.occupant else none
  | none => none

/-- The object of a handle. A handle of another heap is told from a stale one first. -/
def object (h : Heap) (o : Handle) : Except Fault HostObject :=
  if o.heap ≠ h.id then .error .foreignHandle
  else
    match h.occupant? o.index o.generation with
    | some obj => .ok obj
    | none => .error .staleHandle

/-- Whether the handle names an object of the heap. -/
def isValid (h : Heap) (o : Handle) : Bool := (h.object o).isOk

/-- The handle, as long as it names an object of the heap. -/
def upgrade? (h : Heap) (o : Handle) : Option Handle := if h.isValid o then some o else none

/-- Checks that the handle names an object of the heap. -/
def check (h : Heap) (o : Handle) : Except Fault Unit := (h.object o).map fun _ => ()

/-- Checks that a value may be stored in the heap: a primitive, or one of its objects. -/
def checkStorable (h : Heap) : Value → Except Fault Unit
  | .object o => h.check o
  | _ => .ok ()

/-- The number of objects, intrinsic ones included. -/
def liveCount (h : Heap) : Nat := h.slots.foldl (fun n s => if s.isOccupied then n + 1 else n) 0

/-- The prototype of an object. -/
def prototype (h : Heap) (o : Handle) : Except Fault (Option Handle) :=
  (h.object o).map HostObject.prototype

/-- The class of an object. -/
def classOf (h : Heap) (o : Handle) : Except Fault (Option Class) :=
  (h.object o).map HostObject.ofClass

/-! ### Changing objects -/

/-- Adjusts a count of bytes when one of its terms goes from `old` to `new`. -/
def rebalance (used old new : Nat) : Nat :=
  if old ≤ new then used + (new - old) else used - (old - new)

/-- The count of a slot. -/
def bytesAt (h : Heap) (index : Nat) : Nat := (h.slots[index]?.map Slot.bytes).getD 0

/-- Puts an object in the place of the one in an occupied slot. -/
def store (h : Heap) (index : Nat) (obj : HostObject) : Heap :=
  { h with
    used := rebalance h.used (h.bytesAt index) obj.size
    slots := h.slots.modify index fun s => s.occupy obj }

/-- Reads from the heap, failing if the reading does. -/
def reading {α : Type} (f : Heap → Except Fault α) : HeapM α := fun h => (f h, h)

/-- Changes the object of a handle. -/
def change (o : Handle) (f : HostObject → HostObject) : HeapM Unit := fun h =>
  match h.object o with
  | .ok obj => (.ok (), h.store o.index (f obj))
  | .error e => (.error e, h)

/-! ### Private data -/

/-- The private data of an object. -/
def privateOf (h : Heap) (o : Handle) : Except Fault (Option PrivateData) :=
  (h.object o).map HostObject.privateData

/-- Puts private data in the place of the former. -/
def setPrivate (o : Handle) (data : Option PrivateData) : HeapM Unit :=
  change o fun obj => { obj with privateData := data }

end Heap

end HostObjects
