import HostObjects.Heap.Allocate

/-!
# Own properties

Reading and changing the properties of one object, without its class and its prototypes. What is
stored must be a primitive or a valid object of the same heap. Creating a property may run a
collection, so the object is looked up again after it.
-/

namespace HostObjects.Heap

/-- The own property of a name. -/
def ownProperty (h : Heap) (o : Handle) (name : Text) : Except Fault (Option Property) :=
  (h.object o).map fun obj => Property.find? obj.properties name

/-- Whether an object has an own property of the name. -/
def hasOwn (h : Heap) (o : Handle) (name : Text) : Except Fault Bool :=
  (h.ownProperty o name).map Option.isSome

/-- The value of an own property. -/
def getOwn (h : Heap) (o : Handle) (name : Text) : Except Fault (Option Value) :=
  (h.ownProperty o name).map fun p => p.map Property.value

/-- The attributes of an own property. -/
def ownAttributes (h : Heap) (o : Handle) (name : Text) : Except Fault (Option Attributes) :=
  (h.ownProperty o name).map fun p => p.map Property.attributes

/-- The names of the own properties that enumerations show, in order. -/
def ownNames (h : Heap) (o : Handle) : Except Fault (List Text) :=
  (h.object o).map fun obj => Property.visibleNames obj.properties

/-- The object with a property put in the place of the one of its name. -/
def withUpdated (p : Property) (obj : HostObject) : HostObject :=
  { obj with properties := Property.update obj.properties p }

/-- The object with a property added at the end. -/
def withAdded (p : Property) (obj : HostObject) : HostObject :=
  { obj with properties := obj.properties ++ [p] }

/-- The object without the property of a name. -/
def withRemoved (name : Text) (obj : HostObject) : HostObject :=
  { obj with properties := Property.remove obj.properties name }

/-- Creates a property or replaces the one of its name, value and attributes; a read-only one
too. -/
def defineOwn (held : ClassId → Bool) (o : Handle) (p : Property) : HeapM Unit := do
  reading fun h => h.checkStorable p.value
  match ← reading fun h => h.ownProperty o p.name with
  | some _ => change o (withUpdated p)
  | none =>
    makeRoom held HostObject.propertyBytes
    change o (withAdded p)

/-- The attributes that a write leaves: its own, unless it names none. -/
def writtenAttributes (old new : Attributes) : Attributes := if new = .none then old else new

/-- Writes a property. A read-only one is left as it is and the answer is `false`; a missing one is
created. -/
def putOwn (held : ClassId → Bool) (o : Handle) (p : Property) : HeapM Bool := do
  reading fun h => h.checkStorable p.value
  match ← reading fun h => h.ownProperty o p.name with
  | some old =>
    if old.attributes.readOnly then return false
    change o (withUpdated { p with attributes := writtenAttributes old.attributes p.attributes })
    return true
  | none =>
    defineOwn held o p
    return true

/-- Removes a property. The answer is `false` if it is permanent, and then it stays. -/
def deleteOwn (o : Handle) (name : Text) : HeapM Bool := do
  match ← reading fun h => h.ownProperty o name with
  | none => return true
  | some old =>
    if old.attributes.permanent then return false
    change o (withRemoved name)
    return true

end HostObjects.Heap
