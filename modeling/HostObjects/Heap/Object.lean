import HostObjects.Class

/-!
# Objects in a heap

What a slot of a heap holds: a prototype link, a class, a behaviour, properties in order of
insertion and private data of the host. The links of an object are the handles the collector
follows from it.

An object can own resources of the host through its private data: an `OwnedRoot` or a
`ManagedValue` put there is released when the object dies.
-/

namespace HostObjects

/-- The key of a node in the host's own object graph. -/
abbrev HostNode := UInt64

/-- An end of an external edge: an object of a heap or a node of the host's graph. -/
inductive Node where
  | object (o : Handle)
  | host (key : HostNode)
deriving DecidableEq

namespace Node

/-- The object the node is, if it is one. -/
def object? : Node → Option Handle
  | .object o => some o
  | .host _ => none

end Node

/-- A place in the table of persistent roots. -/
structure RootPlace where
  index : Nat
deriving DecidableEq, Inhabited

/-- An owned persistent root, released when dropped. -/
structure OwnedRoot where
  root : RootPlace
  heap : HeapId
deriving DecidableEq

/-- A value held weakly, kept alive by an owner if it has one. -/
structure ManagedValue where
  /-- The value; an object is not kept alive by being here. -/
  value : Value
  /-- The node whose reachability keeps the object alive. -/
  owner : Option Node
  heap : HeapId
deriving DecidableEq

/-- Private data that a host attaches to an object. -/
inductive PrivateData where
  | word (n : UInt32)
  | string (s : String)
  | managed (m : ManagedValue)
  | root (r : OwnedRoot)
deriving DecidableEq

/-- What an object does when called or constructed, apart from its class. -/
inductive Behaviour where
  /-- Neither can be called nor constructs. -/
  | ordinary
  | function (name : Text) (call : HostFunction)
  /-- A constructor: of instances of the class, unless the host provides what it does. -/
  | constructor (made : Option Class) (construct : Option HostFunction)

/-- An object as it lies in a heap. -/
structure HostObject where
  prototype : Option Handle
  /-- The class, absent for plain objects. -/
  ofClass : Option Class
  /-- What it does when called or constructed. -/
  behaviour : Behaviour
  /-- The own properties, in order of insertion. -/
  properties : List Property
  privateData : Option PrivateData

namespace HostObject

/-- The bytes an object counts without its properties. -/
def baseBytes : Nat := 120

/-- The bytes a property counts. -/
def propertyBytes : Nat := 64

/-- A plain object with the prototype. -/
def ordinary (prototype : Option Handle) : HostObject := ⟨prototype, none, .ordinary, [], none⟩

/-- The bytes the object counts. -/
def size (o : HostObject) : Nat := baseBytes + o.properties.length * propertyBytes

/-- The handles the collector follows: the prototype and the objects among the values. -/
def links (o : HostObject) : List Handle :=
  o.prototype.toList ++ o.properties.filterMap fun p => p.value.object?

/-- The classes the object refers to: its own and the one it constructs. -/
def classes (o : HostObject) : List Class :=
  o.ofClass.toList ++
    match o.behaviour with
    | .constructor made _ => made.toList
    | _ => []

/-- Whether the object refers to the class of this identity, directly or through a subclass. -/
def usesClass (o : HostObject) (id : ClassId) : Bool :=
  o.classes.any fun c => c.inheritsFrom id

end HostObject

end HostObjects
