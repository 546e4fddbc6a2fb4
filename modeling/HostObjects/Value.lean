import HostObjects.Handle
import HostObjects.Number.Literal
import HostObjects.Number.Numeral

/-!
# Values

The values that properties hold and operations exchange. There are two equalities: `Value.equal`
compares numbers numerically, `Value.same` tells the two zeros apart and takes not-a-number to be
the same as itself. On everything but numbers they agree.
-/

namespace HostObjects

/-- A value. -/
inductive Value where
  | undefined
  | null
  | bool (b : Bool)
  | number (x : Double)
  | text (t : Text)
  | object (o : Handle)
deriving DecidableEq, Inhabited

/-- The type of a value, also the hint of a conversion. -/
inductive Kind where
  | undefined
  | null
  | boolean
  | number
  | string
  | object
deriving DecidableEq

namespace Value

/-- The type of the value. -/
def kind : Value → Kind
  | .undefined => .undefined
  | .null => .null
  | .bool _ => .boolean
  | .number _ => .number
  | .text _ => .string
  | .object _ => .object

/-- The object the value is, if it is one. -/
def object? : Value → Option Handle
  | .object o => some o
  | _ => none

/-- Whether the value is `undefined`. -/
def isUndefined : Value → Bool
  | .undefined => true
  | _ => false

/-- Equality with numbers compared numerically. -/
def equal (a b : Value) : Bool :=
  match a, b with
  | .number x, .number y => x.equal y
  | a, b => a == b

/-- Sameness: equality, except that the zeros differ and not-a-number is the same as itself. -/
def same (a b : Value) : Bool := a == b

/-- The truth value of a value. -/
def toBool : Value → Bool
  | .undefined => false
  | .null => false
  | .bool b => b
  | .number x => !(x.isZero || x.isNaN)
  | .text t => !t.isEmpty
  | .object _ => true

/-- The number a primitive converts to; objects convert through their class. -/
def primitiveNumber? : Value → Option Double
  | .undefined => some .nan
  | .null => some .zero
  | .bool b => some (if b then Double.ofNat 1 else .zero)
  | .number x => some x
  | .text t => some t.toDouble
  | .object _ => none

/-- The text a primitive converts to; objects convert through their class. -/
def primitiveText? : Value → Option Text
  | .undefined => some (Text.ofString "undefined")
  | .null => some (Text.ofString "null")
  | .bool b => some (Text.ofString (if b then "true" else "false"))
  | .number x => some x.toText
  | .text t => some t
  | .object _ => none

end Value

end HostObjects
