import HostObjects.View.Session

/-!
# Writing and deleting properties

A write goes to the `set` callbacks of the class chain, most derived first, until one takes it; then
to the static values of the name, class by class, where a read-only one ends the write without
effect; a read-only instance function ends it too. Only a write that nothing ended reaches the
object's own property.

A deletion is refused first of all where a static entry or the own property is permanent; callbacks
are asked only after that.
-/

namespace HostObjects.View

open HostObjects.Action

variable {σ : Type}

/-! ### Writing -/

/-- Offers a write to the `set` callbacks of a class chain. -/
def setByCallbacks (host : Host σ) (o : Handle) (name : Text) (v : Value) :
    List Descriptor → Action σ Bool
  | [] => return false
  | d :: ds => do
    match d.callbacks .set with
    | some f =>
      if ← host.answer f (.set o name v) then return true
      setByCallbacks host o name v ds
    | none => setByCallbacks host o name v ds

/-- Offers a write to the static values of the name. A read-only one ends it. -/
def setByValues (host : Host σ) (o : Handle) (name : Text) (v : Value) :
    List Descriptor → Action σ Bool
  | [] => return false
  | d :: ds => do
    match d.value? name with
    | some entry =>
      if entry.attributes.readOnly then return true
      match entry.setter with
      | some f =>
        if ← host.answer f (.set o name v) then return true
        setByValues host o name v ds
      | none => setByValues host o name v ds
    | none => setByValues host o name v ds

/-- Whether some instance function of the name is read-only. -/
def hasReadOnlyFunction (c : Class) (name : Text) : Bool :=
  c.onInstance.any fun d => (d.function? name).any fun f => f.attributes.readOnly

/-- Whether the class of an object ends a write. -/
def setByClass (host : Host σ) (o : Handle) (name : Text) (v : Value) (c : Class) :
    Action σ Bool := do
  if ← setByCallbacks host o name v c.chain then return true
  if ← setByValues host o name v c.chain then return true
  return hasReadOnlyFunction c name

/-- Writes the own property. A read-only one stays as it is. -/
def writeOwn (host : Host σ) (o : Handle) (p : Property) : Action σ Unit := do
  let _ ← allocating host fun held => Heap.putOwn held o p

/-- Offers a write to the class of the object, then to the object. -/
def write (host : Host σ) (o : Handle) (p : Property) : Action σ Unit := do
  match ← reading fun h => h.classOf o with
  | some c =>
    if ← holding [c] (setByClass host o p.name p.value c) then return ()
    writeOwn host o p
  | none => writeOwn host o p

/-- Writes a property, which is created with the attributes if it does not exist. -/
def setProperty (host : Host σ) (o : Handle) (name : Text) (v : Value) (attributes : Attributes) :
    Action σ Unit :=
  operating o do
    rootOperand v
    write host o ⟨name, v, attributes⟩

/-! ### Deleting -/

/-- Whether a static entry of the name is permanent. -/
def hasPermanentEntry (c : Class) (name : Text) : Bool :=
  c.chain.any (fun d => (d.value? name).any fun v => v.attributes.permanent) ||
    c.onInstance.any fun d => (d.function? name).any fun f => f.attributes.permanent

/-- Offers a deletion to the `delete` callbacks of a class chain. -/
def deleteByCallbacks (host : Host σ) (o : Handle) (name : Text) :
    List Descriptor → Action σ Bool
  | [] => return false
  | d :: ds => do
    match d.callbacks .delete with
    | some f =>
      if ← host.answer f (.delete o name) then return true
      deleteByCallbacks host o name ds
    | none => deleteByCallbacks host o name ds

/-- Deletes a property of an object with the class chain. -/
def deleteThrough (host : Host σ) (o : Handle) (name : Text) (chain : List Descriptor) :
    Action σ Bool := do
  let own ← reading fun h => h.ownAttributes o name
  if own.any Attributes.permanent then return false
  if ← deleteByCallbacks host o name chain then return true
  editing (Heap.deleteOwn o name)

/-- Offers a deletion to the class of the object, then to the object. -/
def deleteAt (host : Host σ) (o : Handle) (name : Text) : Action σ Bool := do
  match ← reading fun h => h.classOf o with
  | some c =>
    if hasPermanentEntry c name then return false
    holding [c] (deleteThrough host o name c.chain)
  | none => deleteThrough host o name []

/-- Deletes a property; the answer is `false` if it is permanent. -/
def deleteProperty (host : Host σ) (o : Handle) (name : Text) : Action σ Bool :=
  operating o (deleteAt host o name)

end HostObjects.View
