import HostObjects.Heap.OwnProperty
import HostObjects.Heap.Roots

/-!
# Shared prototypes of classes

A class with an automatic prototype has one prototype object in each heap, built when it is first
needed. It holds a function object for each static function of the class and links to the
prototype of the parent class. Classes without an automatic prototype, and classes without a
parent, use the prototype of plain objects.

Building allocates several times, and each object built so far is rooted while the next one is
made. A build that fails leaves nothing behind but garbage.
-/

namespace HostObjects.Heap

/-- The name under which a function keeps its name. -/
def nameKey : Text := Text.ofString "name"

/-- A function object, before it has its name property. -/
def functionObject (h : Heap) (name : Text) (call : HostFunction) : HostObject :=
  ⟨some h.functionPrototype, none, .function name call, [], none⟩

/-- Allocates a function object. Nothing roots it. -/
def allocFunction (held : ClassId → Bool) (name : Text) (call : HostFunction) : HeapM Handle := do
  let h ← get
  let f ← alloc held (h.functionObject name call)
  rooting (.object f)
    (defineOwn held f ⟨nameKey, .text name, .functionName⟩)
  return f

/-- Adds a function object for each entry to a prototype. -/
def populate (held : ClassId → Bool) (proto : Handle) : List StaticFunction → HeapM Unit
  | [] => return ()
  | entry :: rest => do
    let f ← allocFunction held entry.name entry.call
    rooting (.object f) (defineOwn held proto ⟨entry.name, .object f, entry.attributes⟩)
    populate held proto rest

/-- The shared prototype built for a class, if there is one. -/
def classPrototype? (h : Heap) (id : ClassId) : Option Handle :=
  (h.classPrototypes.find? fun p => p.1 == id).map Prod.snd

/-- Records the shared prototype of a class. -/
def recordPrototype (id : ClassId) (proto : Handle) (h : Heap) : Heap :=
  { h with classPrototypes := (id, proto) :: h.classPrototypes.filter fun p => !(p.1 == id) }

/-- The prototype with which instances of a class chain start. -/
def prototypeOf (held : ClassId → Bool) : List Descriptor → HeapM Handle
  | [] => do return (← get).objectPrototype
  | d :: ancestors => do
    let h ← get
    if !d.automatic then return h.objectPrototype
    match h.classPrototype? d.id with
    | some proto => return proto
    | none =>
      let parent ← prototypeOf held ancestors
      let proto ← alloc held (.ordinary (some parent))
      rooting (.object proto) (populate held proto d.firstFunctions)
      modify (recordPrototype d.id proto)
      return proto

/-- Allocates an instance of a class. Nothing roots it. -/
def allocInstance (held : ClassId → Bool) (c : Class) (data : Option PrivateData)
    (proto : Handle) : HeapM Handle :=
  alloc held ⟨some proto, some c, .ordinary, [], data⟩

end HostObjects.Heap
