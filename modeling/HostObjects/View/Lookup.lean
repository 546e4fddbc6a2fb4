import HostObjects.View.Create
import HostObjects.View.Walk

/-!
# Looking up properties

For each object of the prototype chain, a look-up asks the callbacks of the object's class chain,
most derived first, then the static entries of the chain, then the object's own properties, and
stops at the first answer or the first fault.

The existence test asks the `has` callback of a class, or its `get` callback where it has no other.
A static function of a class without a shared prototype answers on the instance; reading it for the
first time stores a function object there, and an own property of the name goes first.
-/

namespace HostObjects.View

open HostObjects.Action

variable {σ : Type}

/-! ### Existence -/

/-- Asks the callbacks of a class chain whether the property exists. -/
def hasByCallbacks (host : Host σ) (o : Handle) (name : Text) : List Descriptor → Action σ Bool
  | [] => return false
  | d :: ds => do
    let found ←
      match d.callbacks .has, d.callbacks .get with
      | some f, _ => host.answer f (.has o name)
      | none, some f => Option.isSome <$> host.answer f (.get o name)
      | none, none => pure false
    if found then return true
    hasByCallbacks host o name ds

/-- Whether the class of an object answers for the property. -/
def hasByClass (host : Host σ) (o : Handle) (name : Text) (c : Class) : Action σ Bool := do
  if ← hasByCallbacks host o name c.chain then return true
  return c.hasStaticValue name || c.hasInstanceFunction name

/-- Whether the property exists at one object of the chain. -/
def hasAt (host : Host σ) (o : Handle) (name : Text) : Action σ Bool := do
  match ← reading fun h => h.classOf o with
  | some c =>
    if ← holding [c] (hasByClass host o name c) then return true
    reading fun h => h.hasOwn o name
  | none => reading fun h => h.hasOwn o name

/-- Looks for the property along the prototype chain. -/
def hasOnChain (host : Host σ) (o : Handle) (name : Text) : Action σ Bool := do
  let visit (_ : Unit) (p : Handle) : Action σ (Unit ⊕ Unit) := do
    return if ← hasAt host p name then .inl () else .inr ()
  return (← walkFrom visit () (some o)).isLeft

/-- Whether the property exists at the object or on its prototype chain. -/
def hasProperty (host : Host σ) (o : Handle) (name : Text) : Action σ Bool :=
  operating o (hasOnChain host o name)

/-! ### Reading -/

/-- Asks the `get` callbacks of a class chain. -/
def getByCallbacks (host : Host σ) (o : Handle) (name : Text) :
    List Descriptor → Action σ (Option Value)
  | [] => return none
  | d :: ds => do
    match d.callbacks .get with
    | some f =>
      match ← host.answer f (.get o name) with
      | some v => return some v
      | none => getByCallbacks host o name ds
    | none => getByCallbacks host o name ds

/-- Asks the getters of the static values of the name, one for each class of the chain. -/
def getByGetters (host : Host σ) (o : Handle) (name : Text) :
    List Descriptor → Action σ (Option Value)
  | [] => return none
  | d :: ds => do
    match (d.value? name).bind StaticValue.getter with
    | some f =>
      match ← host.answer f (.get o name) with
      | some v => return some v
      | none => getByGetters host o name ds
    | none => getByGetters host o name ds

/-- The function object of a static function on an instance, stored there on first use. -/
def instanceFunction (host : Host σ) (o : Handle) (entry : StaticFunction) (name : Text) :
    Action σ Value := do
  match ← reading fun h => h.getOwn o name with
  | some v => return v
  | none =>
    let f ← makeFunction host name entry.call
    allocating host fun held => Heap.defineOwn held o ⟨name, .object f, entry.attributes⟩
    return .object f

/-- The value of the property at an object with a class. -/
def getByClass (host : Host σ) (o : Handle) (name : Text) (c : Class) :
    Action σ (Option Value) := do
  if let some v ← getByCallbacks host o name c.chain then return some v
  if let some v ← getByGetters host o name c.chain then return some v
  match c.onInstance.findSome? fun d => d.function? name with
  | some entry => return some (← instanceFunction host o entry name)
  | none => reading fun h => h.getOwn o name

/-- The value of the property at one object of the chain. -/
def getAt (host : Host σ) (o : Handle) (name : Text) : Action σ (Option Value) := do
  match ← reading fun h => h.classOf o with
  | some c => holding [c] (getByClass host o name c)
  | none => reading fun h => h.getOwn o name

/-- Looks for the value along the prototype chain. -/
def lookUp (host : Host σ) (o : Handle) (name : Text) : Action σ Value := do
  let visit (_ : Unit) (p : Handle) : Action σ (Value ⊕ Unit) := do
    match ← getAt host p name with
    | some v => return .inl v
    | none => return .inr ()
  match ← walkFrom visit () (some o) with
  | .inl v => return v
  | .inr () => return .undefined

/-- The value of a property, `undefined` if nothing answers. It is rooted in the view. -/
def getProperty (host : Host σ) (o : Handle) (name : Text) : Action σ Value := do
  let v ← operating o (lookUp host o name)
  rootOperand v
  return v

end HostObjects.View
