import HostObjects.View.Lookup

/-!
# Calling, constructing and testing instances

These operations go to one callback, that of the most derived class that has one. Without it a
function object runs its host function, and a constructor makes an object. A constructor without a
callback of its own makes instances of its class, and a value is its instance when its `prototype`
property is on the value's prototype chain.
-/

namespace HostObjects.View

open HostObjects.Action

variable {σ : Type}

/-- The callback of an object's class for an operation, with the class. -/
def classCallback? (c : Option Class) (op : Operation) : Option HostFunction :=
  c.bind fun c => c.callback? op

/-- Roots the operands in order. -/
def rootAll : List Value → Action σ Unit
  | [] => return ()
  | v :: vs => do
    rootOperand v
    rootAll vs

/-- The behaviour of an object. -/
def behaviour (o : Handle) : Action σ Behaviour :=
  reading fun h => (h.object o).map HostObject.behaviour

/-- Runs an action that depends on the class of an object, and holds on to the class. -/
def byClass {α : Type} (o : Handle) (act : Option Class → Action σ α) : Action σ α := do
  let c ← reading fun h => h.classOf o
  holding c.toList (act c)

/-- Runs the function behind a callable object. -/
def callResolved (host : Host σ) (f : Handle) (this : Value) (args : List Value)
    (c : Option Class) : Action σ Value := do
  match classCallback? c .call with
  | some g => host.answer g (.call f this args)
  | none =>
    match ← behaviour f with
    | .function _ g => host.answer g (.call f this args)
    | _ => throw .notCallable

/-- Calls an object as a function. The result is rooted in the view. -/
def call (host : Host σ) (f : Handle) (this : Value) (args : List Value) : Action σ Value := do
  let result ← operating f do
    rootOperand this
    rootAll args
    byClass f (callResolved host f this args)
  rootOperand result
  return result

/-- Runs what is behind an object that constructs. -/
def constructResolved (host : Host σ) (f : Handle) (args : List Value) (c : Option Class) :
    Action σ Handle := do
  match classCallback? c .construct with
  | some g => host.answer g (.construct f args)
  | none =>
    match ← behaviour f with
    | .constructor made (some g) => holding made.toList (host.answer g (.construct f args))
    | .constructor made none => holding made.toList (makeObject host made none)
    | _ => throw .notConstructable

/-- Calls an object as a constructor. The result is rooted in the view. -/
def construct (host : Host σ) (f : Handle) (args : List Value) : Action σ Handle := do
  let made ← operating f do
    rootAll args
    byClass f (constructResolved host f args)
  rootOperand (.object made)
  return made

/-- Whether a prototype is on the chain of an object, the object itself left out. -/
def hasPrototype (proto : Handle) (o : Handle) : Action σ Bool := do
  let visit (_ : Unit) (p : Handle) : Action σ (Unit ⊕ Unit) :=
    return if p = proto then .inl () else .inr ()
  let first ← reading fun h => h.prototype o
  return (← walkFrom visit () first).isLeft

/-- The instance test of constructors. -/
def isConstructed (host : Host σ) (f : Handle) (v : Value) : Action σ Bool := do
  match ← behaviour f, v with
  | .constructor _ _, .object o =>
    match ← getProperty host f prototypeKey with
    | .object proto => hasPrototype proto o
    | _ => throw (.typeError "constructor prototype is not an object")
  | _, _ => return false

/-- Asks the instance test of an object. -/
def hasInstanceResolved (host : Host σ) (f : Handle) (v : Value) (c : Option Class) :
    Action σ Bool :=
  match classCallback? c .hasInstance with
  | some g => host.answer g (.hasInstance f v)
  | none => isConstructed host f v

/-- Whether a value is an instance of an object. -/
def hasInstance (host : Host σ) (f : Handle) (v : Value) : Action σ Bool :=
  operating f do
    rootOperand v
    byClass f (hasInstanceResolved host f v)

end HostObjects.View
