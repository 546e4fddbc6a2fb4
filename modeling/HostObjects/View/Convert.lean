import HostObjects.View.Assign
import HostObjects.View.Call
import HostObjects.Text.Index

/-!
# Conversions, and properties named by values

Objects convert to numbers and strings through the conversion callback of the most derived class
that has one. An object for which no callback answers, or whose callback answers with an object,
has no number, and its string names its class.

A property may be named by any value: the value is converted to a string first, and the operation
on that name follows.
-/

namespace HostObjects.View

open HostObjects.Action

variable {σ : Type}

/-- The name of an object's class, or of its kind if it has no class. -/
def className (h : Heap) (o : Handle) : Except Fault Text :=
  (h.object o).map fun obj =>
    match obj.ofClass, obj.behaviour with
    | some c, _ => c.name
    | none, .ordinary => Text.ofString "Object"
    | none, _ => Text.ofString "Function"

/-- Asks the conversion callback of an object's class. -/
def convertByClass (host : Host σ) (o : Handle) (hint : Kind) (c : Option Class) :
    Action σ Value := do
  match classCallback? c .convert with
  | some f => return (← host.answer f (.convert o hint)).getD (.object o)
  | none => return .object o

/-- The object as a value of a kind. Only numbers and strings are asked of callbacks. -/
def convertHinted (host : Host σ) (o : Handle) : Kind → Action σ Value
  | .boolean => return .bool true
  | .undefined | .null | .object => return .object o
  | hint => byClass o (convertByClass host o hint)

/-- Converts an object. The result is rooted in the view. -/
def convert (host : Host σ) (o : Handle) (hint : Kind) : Action σ Value := do
  let v ← operating o (convertHinted host o hint)
  rootOperand v
  return v

/-- The number of a value. -/
def toNumber (host : Host σ) (v : Value) : Action σ Double := do
  match v with
  | .object o =>
    let primitive ← inScope (convert host o .number)
    return primitive.primitiveNumber?.getD .nan
  | v => return v.primitiveNumber?.getD .nan

/-- The string of an object that did not convert to a primitive. -/
def objectTag (o : Handle) : Action σ Text := do
  let name ← reading fun h => className h o
  return Text.ofString ("[object " ++ name.toString ++ "]")

/-- The string of a value. -/
def toText (host : Host σ) (v : Value) : Action σ Text := do
  match v with
  | .object o =>
    match ← inScope (convert host o .string) with
    | .object p => objectTag p
    | primitive => return primitive.primitiveText?.getD .empty
  | v => return v.primitiveText?.getD .empty

/-! ### Properties named by indexes and values -/

/-- The value of the property named by an index. -/
def getIndex (host : Host σ) (o : Handle) (i : UInt32) : Action σ Value :=
  getProperty host o (Text.ofNat i.toNat)

/-- Writes the property named by an index. -/
def setIndex (host : Host σ) (o : Handle) (i : UInt32) (v : Value) : Action σ Unit :=
  setProperty host o (Text.ofNat i.toNat) v .none

/-- Whether the property named by a value exists. -/
def hasKeyed (host : Host σ) (o : Handle) (key : Value) : Action σ Bool := do
  hasProperty host o (← toText host key)

/-- The value of the property named by a value. -/
def getKeyed (host : Host σ) (o : Handle) (key : Value) : Action σ Value := do
  getProperty host o (← toText host key)

/-- Writes the property named by a value. What is written is rooted while the name is found. -/
def setKeyed (host : Host σ) (o : Handle) (key v : Value) (attributes : Attributes) :
    Action σ Unit := do
  let name ← inScope do
    rootOperand v
    toText host key
  setProperty host o name v attributes

/-- Deletes the property named by a value. -/
def deleteKeyed (host : Host σ) (o : Handle) (key : Value) : Action σ Bool := do
  deleteProperty host o (← toText host key)

end HostObjects.View
