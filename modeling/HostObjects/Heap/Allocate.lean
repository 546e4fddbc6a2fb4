import HostObjects.Heap.Collect

/-!
# Allocation

Every allocation, of an object or of a property, first makes room. Beyond the threshold a
synchronous heap collects at once and a deferred one schedules a collection; a deferred heap
collects at once only where the memory limit would be passed. An allocation fails when the limit
leaves no room even so.
-/

namespace HostObjects.Heap

/-- Answers the passing of the threshold. -/
def answerThreshold (held : ClassId → Bool) (bytes : Nat) (h : Heap) : Heap :=
  if h.limits.threshold < h.used + bytes then
    match h.mode with
    | .synchronous => h.collect held
    | .deferred => { h with scheduled := true }
  else h

/-- Collects in a deferred heap that has no room. -/
def answerLimit (held : ClassId → Bool) (bytes : Nat) (h : Heap) : Heap :=
  if h.limits.maxBytes < h.used + bytes ∧ h.mode = .deferred then h.collect held else h

/-- Makes room for a number of bytes. -/
def makeRoom (held : ClassId → Bool) (bytes : Nat) : HeapM Unit := fun h =>
  let h := (h.answerThreshold held bytes).answerLimit held bytes
  if h.limits.maxBytes < h.used + bytes then (.error .outOfMemory, h) else (.ok (), h)

/-- The slot taken next, if an empty one is known, and the empty slots after it. -/
def reusable? (h : Heap) : Option (Nat × UInt32 × List Nat) :=
  match h.free with
  | i :: rest => h.slots[i]?.map fun s => (i, s.generation, rest)
  | [] => none

/-- Puts an object into the heap, in the empty slot to take next or in a new one. -/
def place (h : Heap) (obj : HostObject) : Handle × Heap :=
  match h.reusable? with
  | some (i, generation, rest) =>
    (⟨h.id, i, generation⟩,
      { h with
        free := rest
        used := h.used + obj.size
        slots := h.slots.modify i fun s => s.occupy obj })
  | none =>
    (⟨h.id, h.slots.size, 0⟩,
      { h with
        used := h.used + obj.size
        slots := h.slots.push ⟨0, some obj, obj.size⟩
        marks := h.marks.push false })

/-- Allocates an object. -/
def alloc (held : ClassId → Bool) (obj : HostObject) : HeapM Handle := do
  makeRoom held obj.size
  modifyGet fun h => h.place obj

/-- Allocates a plain object. Nothing roots it. -/
def allocPlain (held : ClassId → Bool) : HeapM Handle := do
  let h ← get
  alloc held (.ordinary (some h.objectPrototype))

end HostObjects.Heap
