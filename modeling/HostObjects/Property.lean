import HostObjects.Value

/-!
# Properties

A property is a name, a value and three attributes. The properties of an object are a list in order
of insertion without repeated names: an update keeps the place of a property, a new one goes last,
and a removal keeps the order of the others.
-/

namespace HostObjects

/-- The attributes of a property. -/
structure Attributes where
  /-- Writes are ignored. -/
  readOnly : Bool := false
  /-- The name is left out of enumerations. -/
  hidden : Bool := false
  /-- Deletion is refused. -/
  permanent : Bool := false
deriving DecidableEq, Inhabited

namespace Attributes

/-- No attribute. -/
def none : Attributes := {}

/-- The bit of a flag, if it is set. -/
def flag (set : Bool) (bit : Nat) : Nat := if set then bit else 0

/-- The attributes as bits: 2, 4 and 8. -/
def bits (a : Attributes) : Nat := flag a.readOnly 2 + flag a.hidden 4 + flag a.permanent 8

/-- The attributes among the bits of a number; other bits are dropped. -/
def ofBits (n : Nat) : Attributes := ⟨n.testBit 1, n.testBit 2, n.testBit 3⟩

/-- The attributes of either. -/
def union (a b : Attributes) : Attributes :=
  ⟨a.readOnly || b.readOnly, a.hidden || b.hidden, a.permanent || b.permanent⟩

/-- Whether `a` has every attribute of `b`. -/
def contains (a b : Attributes) : Bool := a.union b == a

/-- Read-only and hidden, the attributes of a function's name. -/
def functionName : Attributes := ⟨true, true, false⟩

/-- Read-only, hidden and permanent, the attributes of a constructor's prototype. -/
def constructorPrototype : Attributes := ⟨true, true, true⟩

end Attributes

/-- A named value of an object. -/
structure Property where
  name : Text
  value : Value
  attributes : Attributes
deriving DecidableEq

namespace Property

/-- The first property of the name. -/
def find? (ps : List Property) (name : Text) : Option Property :=
  ps.find? fun p => p.name == name

/-- Puts a property in place of the first one of its name. -/
def update : List Property → Property → List Property
  | [], _ => []
  | p :: ps, new => if p.name = new.name then new :: ps else p :: update ps new

/-- Takes out the first property of the name. -/
def remove : List Property → Text → List Property
  | [], _ => []
  | p :: ps, name => if p.name = name then ps else p :: remove ps name

/-- The names that enumerations show, in order. -/
def visibleNames (ps : List Property) : List Text :=
  (ps.filter fun p => !p.attributes.hidden).map Property.name

@[simp] theorem find?_nil (name : Text) : find? [] name = none := rfl

@[simp] theorem update_nil (new : Property) : update [] new = [] := rfl

@[simp] theorem remove_nil (name : Text) : remove [] name = [] := rfl

end Property

end HostObjects
