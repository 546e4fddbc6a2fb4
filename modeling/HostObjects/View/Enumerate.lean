import HostObjects.View.Walk

/-!
# Enumerating property names

For each object of the prototype chain, in order: the names that the callbacks of its class chain
add, then class by class the visible static values and, from the first class without a shared
prototype on, the visible static functions, then the visible own properties. A name is kept where it
comes first.
-/

namespace HostObjects.View

open HostObjects.Action

variable {σ : Type}

/-- The names of the visible static values that look-ups can find. -/
def visibleValues (d : Descriptor) : List Text :=
  (d.firstValues.filter fun v => !v.attributes.hidden).map StaticValue.name

/-- The names of the visible static functions that look-ups can find. -/
def visibleFunctions (d : Descriptor) : List Text :=
  (d.firstFunctions.filter fun f => !f.attributes.hidden).map StaticFunction.name

/-- The names of the static entries of a class chain; functions count once a class without a shared
prototype has come. -/
def staticNames (onInstance : Bool) : List Descriptor → List Text
  | [] => []
  | d :: ds =>
    let onInstance := onInstance || !d.automatic
    visibleValues d ++ (if onInstance then visibleFunctions d else []) ++ staticNames onInstance ds

/-- Adds the names that the callbacks of a class chain give. -/
def namesByCallbacks (host : Host σ) (o : Handle) :
    List Descriptor → List Text → Action σ (List Text)
  | [], listed => return listed
  | d :: ds, listed => do
    match d.callbacks .names with
    | some f =>
      let added ← host.answer f (.names o listed.length)
      namesByCallbacks host o ds (listed ++ added)
    | none => namesByCallbacks host o ds listed

/-- Adds the names that the class of an object gives. -/
def namesByClass (host : Host σ) (o : Handle) (c : Class) (listed : List Text) :
    Action σ (List Text) := do
  let listed ← namesByCallbacks host o c.chain listed
  return listed ++ staticNames false c.chain

/-- Adds the names found at one object of the chain. -/
def namesAt (host : Host σ) (listed : List Text) (o : Handle) : Action σ (List Text) := do
  let listed ←
    match ← reading fun h => h.classOf o with
    | some c => holding [c] (namesByClass host o c listed)
    | none => pure listed
  return listed ++ (← reading fun h => h.ownNames o)

/-- The names without those that came before. -/
def firstOccurrences (names : List Text) : List Text := names.eraseDups

/-- Gathers the names along the prototype chain. -/
def namesOnChain (host : Host σ) (o : Handle) : Action σ (List Text) := do
  let visit (listed : List Text) (p : Handle) : Action σ (Empty ⊕ List Text) := do
    return .inr (← namesAt host listed p)
  match ← walkFrom visit [] (some o) with
  | .inr names => return firstOccurrences names

/-- The names of the visible properties of an object and its prototype chain. -/
def propertyNames (host : Host σ) (o : Handle) : Action σ (List Text) :=
  operating o (namesOnChain host o)

end HostObjects.View
