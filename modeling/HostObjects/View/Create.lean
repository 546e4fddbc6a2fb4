import HostObjects.View.Session

/-!
# Making objects

New objects are rooted in the view that makes them. An object of a class starts with the class's
prototype and gets its private data before any callback sees it; then the set-up callbacks of the
class chain run, the base class first, until one fails.
-/

namespace HostObjects.View

open HostObjects.Action

variable {σ : Type}

/-- Runs set-up callbacks in the order given. -/
def setUpAlong (host : Host σ) (o : Handle) : List Descriptor → Action σ Unit
  | [] => return ()
  | d :: ds => do
    match d.callbacks .setUp with
    | some f => host.answer f (.setUp o)
    | none => pure ()
    setUpAlong host o ds

/-- Runs the set-up callbacks of a class, base class first. -/
def setUp (host : Host σ) (o : Handle) (c : Class) : Action σ Unit :=
  setUpAlong host o c.chain.reverse

/-- Runs an action, and drops private data if it fails. -/
def orDiscard {α : Type} (host : Host σ) (data : Option PrivateData) (act : Action σ α) :
    Action σ α := do
  try act
  catch e =>
    discarding host data
    throw e

/-- Replaces the private data of an object, which needs a class to have any. What is replaced, and
what cannot be kept, is dropped. -/
def replacePrivate (host : Host σ) (o : Handle) (data : Option PrivateData) : Action σ Bool :=
  orDiscard host data do
    let c ← reading fun h => h.classOf o
    if c.isSome then
      let old ← reading fun h => h.privateOf o
      editing (Heap.setPrivate o data)
      discarding host old
      return true
    else
      discarding host data
      return false

/-- Allocates a plain object and roots it. -/
def makePlain (host : Host σ) : Action σ Handle := do
  let o ← allocating host Heap.allocPlain
  push (.object o)
  return o

/-- Allocates an instance of a class with its private data, not rooted yet. -/
def makeInstance (host : Host σ) (c : Class) (data : Option PrivateData) : Action σ Handle :=
  orDiscard host data do
    let proto ← allocating host fun held => Heap.prototypeOf held c.chain
    allocating host fun held => Heap.allocInstance held c data proto

/-- Makes an object of a class, or a plain one. Plain objects keep no private data. -/
def makeObject (host : Host σ) (c : Option Class) (data : Option PrivateData) :
    Action σ Handle :=
  match c with
  | none =>
    orDiscard host data do
      let o ← makePlain host
      discarding host data
      return o
  | some c => do
    let o ← makeInstance host c data
    push (.object o)
    setUp host o c
    return o

/-- Makes a function that runs a host function. -/
def makeFunction (host : Host σ) (name : Text) (call : HostFunction) : Action σ Handle := do
  let f ← allocating host fun held => Heap.allocFunction held name call
  push (.object f)
  return f

/-- The name under which a constructor keeps its prototype. -/
def prototypeKey : Text := Text.ofString "prototype"

/-- The prototype that instances made by a constructor start with. -/
def constructedPrototype (host : Host σ) : Option Class → Action σ Handle
  | some c => allocating host fun held => Heap.prototypeOf held c.chain
  | none => reading fun h => .ok h.objectPrototype

/-- Makes a constructor, of instances of the class or by a host function. -/
def makeConstructor (host : Host σ) (c : Option Class) (construct : Option HostFunction) :
    Action σ Handle := do
  let proto ← constructedPrototype host c
  let f ← allocating host fun held => do
    let h ← get
    Heap.alloc held ⟨some h.functionPrototype, none, .constructor c construct, [], none⟩
  push (.object f)
  allocating host fun held =>
    Heap.defineOwn held f ⟨prototypeKey, .object proto, .constructorPrototype⟩
  return f

/-- The shared prototype of a class, built on first use; none for classes without one. -/
def classPrototype (host : Host σ) (c : Class) : Action σ (Option Handle) :=
  if c.own.automatic then do
    return some (← allocating host fun held => Heap.prototypeOf held c.chain)
  else return none

/-- Sets the prototype of an object, to a valid object or to none. -/
def setPrototype (o : Handle) (p : Option Handle) : Action σ Unit := do
  if let some p := p then reading fun h => h.check p
  editing (Heap.setPrototype o p)

end HostObjects.View
