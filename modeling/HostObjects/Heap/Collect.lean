import HostObjects.Heap.Mark

/-!
# Collections

A collection first forgets the shared prototypes of classes that nobody uses any more, then marks
from the roots, then sweeps: every object without a mark leaves its slot, and external edges at
such an object disappear. The objects swept are handed on in `reaped`, in the order of their slots,
so their finalizers see a heap in which all of them are gone.

Which classes are in use is only partly known to the heap. Its own objects use classes; `held` says
which classes are held from elsewhere, by host handles, by other heaps or by an operation that is
under way.
-/

namespace HostObjects.Heap

/-- Whether a class is in use: held from outside, or used by an object of the heap. -/
def classInUse (held : ClassId → Bool) (h : Heap) (id : ClassId) : Bool :=
  held id || h.slots.any fun s => s.occupant.any fun o => o.usesClass id

/-- Forgets the shared prototypes of classes that are not in use. -/
def forgetPrototypes (held : ClassId → Bool) (h : Heap) : Heap :=
  { h with classPrototypes := h.classPrototypes.filter fun p => h.classInUse held p.1 }

/-- Whether the slot at an index holds an object and has no mark. -/
def isGarbage (marks : Array Bool) (index : Nat) (s : Slot) : Bool :=
  s.isOccupied && !(marks[index]?.getD false)

/-- The occupied slots without a mark, in ascending order. -/
def garbage (h : Heap) (marks : Array Bool) : List Nat :=
  (List.range h.slots.size).filter fun i => (h.slots[i]?.any fun s => isGarbage marks i s)

/-- The object in a slot, as it waits for its finalizers. -/
def reap? (h : Heap) (index : Nat) : Option Reaped :=
  h.slots[index]?.bind fun s =>
    s.occupant.map fun o => ⟨⟨h.id, index, s.generation⟩, o⟩

/-- Whether an end of an external edge lasts: host nodes and objects of other heaps do. -/
def keepsNode (h : Heap) : Node → Bool
  | .object o => o.heap ≠ h.id || h.isValid o
  | .host _ => true

/-- Drops the external edges with an end at an object that is gone. -/
def pruneEdges (h : Heap) : Heap :=
  { h with edges := h.edges.retain h.keepsNode }

/-- Empties the slots without a mark. -/
def emptySlots (h : Heap) (marks : Array Bool) : Heap :=
  let dead := h.garbage marks
  { h with
    used := dead.foldl (fun used i => used - h.bytesAt i) h.used
    slots := h.slots.mapIdx fun i s => if isGarbage marks i s then s.vacate else s
    marks := Array.replicate h.slots.size false
    free := dead.reverse ++ h.free
    reaped := h.reaped ++ dead.filterMap h.reap? }

/-- Sweeps the heap by the marks. -/
def sweep (h : Heap) (marks : Array Bool) : Heap := (h.emptySlots marks).pruneEdges

/-- Runs a collection. -/
def collect (held : ClassId → Bool) (h : Heap) : Heap :=
  let counted := { h with collections := h.collections + 1, scheduled := false }
  let rooted := counted.forgetPrototypes held
  rooted.sweep rooted.marked.marks

end HostObjects.Heap
