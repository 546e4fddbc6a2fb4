import HostObjects.Fault
import HostObjects.Property

/-!
# Classes

A class describes how the objects made with it answer operations: a table of callbacks, static
values and static functions, and a parent class. A class is immutable, and so is its chain of
ancestors, so a class is simply the non-empty list of its own descriptor and those of its
ancestors. Every question to the class chain is a question to that list, most derived first.

Callbacks are named by `HostFunction`. What a host function does is not part of a class: the host
that runs the operations interprets it.
-/

namespace HostObjects

/-- The name of a function that the host provides. -/
structure HostFunction where
  /-- The number under which the host knows it. -/
  number : Nat
deriving DecidableEq, Hashable, Inhabited

/-- The identity of a class; no two classes share one. -/
structure ClassId where
  /-- The number of the class in order of creation. -/
  number : Nat
deriving DecidableEq, Hashable, Inhabited

/-- A declared value property, answered by a getter and a setter. -/
structure StaticValue where
  name : Text
  attributes : Attributes
  /-- What answers a read. -/
  getter : Option HostFunction
  /-- What takes a write. -/
  setter : Option HostFunction

/-- A declared function property. -/
structure StaticFunction where
  name : Text
  attributes : Attributes
  /-- What a call runs. -/
  call : HostFunction

/-- The operations for which a class may have a callback. -/
inductive Operation where
  /-- An object of the class was made. -/
  | setUp
  /-- An object of the class died. -/
  | finalize
  | has
  | get
  | set
  | delete
  | names
  | call
  | construct
  | hasInstance
  /-- Conversion to a number or a string. -/
  | convert
deriving DecidableEq

/-- The callbacks of one class, without those of its ancestors. -/
abbrev Callbacks := Operation → Option HostFunction

/-- What one class declares, apart from its parent. -/
structure Descriptor where
  id : ClassId
  version : Nat
  name : Text
  /-- Whether the static functions live on a prototype shared by all instances; otherwise each
  instance gets its own function objects. -/
  automatic : Bool
  /-- The static values, in order of declaration. -/
  values : List StaticValue
  /-- The static functions, in order of declaration. -/
  functions : List StaticFunction
  callbacks : Callbacks

namespace Descriptor

/-- The first static value of the name. -/
def value? (d : Descriptor) (name : Text) : Option StaticValue :=
  d.values.find? fun v => v.name == name

/-- The first static function of the name. -/
def function? (d : Descriptor) (name : Text) : Option StaticFunction :=
  d.functions.find? fun f => f.name == name

/-- Whether the class itself has a callback for the operation. -/
def defines (d : Descriptor) (op : Operation) : Bool := (d.callbacks op).isSome

/-- The entries whose name is not in `seen` and not the name of an earlier entry. -/
def firstsBy {α : Type} (name : α → Text) (seen : List Text) : List α → List α
  | [] => []
  | a :: as =>
    if seen.contains (name a) then firstsBy name seen as
    else a :: firstsBy name (name a :: seen) as

/-- The static values that look-ups can find: the first of each name. -/
def firstValues (d : Descriptor) : List StaticValue := firstsBy StaticValue.name [] d.values

/-- The static functions that look-ups can find: the first of each name. -/
def firstFunctions (d : Descriptor) : List StaticFunction :=
  firstsBy StaticFunction.name [] d.functions

/-- The attribute bits of the class: 2 for a class without a shared prototype. -/
def attributeBits (d : Descriptor) : Nat := if d.automatic then 0 else 2

end Descriptor

/-- A class with its ancestors. -/
structure Class where
  own : Descriptor
  /-- The descriptors of its ancestors, nearest first. -/
  ancestors : List Descriptor

namespace Class

/-- The greatest length of a class chain. -/
def maxChain : Nat := 256

/-- The one version of the declaration format. -/
def formatVersion : Nat := 0

/-- The identity of the class. -/
def id (c : Class) : ClassId := c.own.id

/-- The name of the class. -/
def name (c : Class) : Text := c.own.name

/-- The class and its ancestors, most derived first. -/
def chain (c : Class) : List Descriptor := c.own :: c.ancestors

/-- The parent class. -/
def parent? (c : Class) : Option Class :=
  match c.ancestors with
  | [] => none
  | d :: ds => some ⟨d, ds⟩

/-- Whether the class of this identity is the class or one of its ancestors. -/
def inheritsFrom (c : Class) (id : ClassId) : Bool := c.chain.any fun d => d.id == id

/-- The most derived class of the chain that has a callback for the operation. -/
def resolve? (c : Class) (op : Operation) : Option Descriptor :=
  c.chain.find? fun d => d.defines op

/-- The callback that answers the operation. -/
def callback? (c : Class) (op : Operation) : Option HostFunction :=
  c.chain.findSome? fun d => d.callbacks op

/-- The classes of the chain whose static functions are found on the instance itself: all from the
first class without a shared prototype on, because shared prototypes link only to each other. -/
def onInstance (c : Class) : List Descriptor := c.chain.dropWhile Descriptor.automatic

/-- Whether some class of the chain has a static value of the name. -/
def hasStaticValue (c : Class) (name : Text) : Bool := c.chain.any fun d => (d.value? name).isSome

/-- Whether some instance function of the chain has the name. -/
def hasInstanceFunction (c : Class) (name : Text) : Bool :=
  c.onInstance.any fun d => (d.function? name).isSome

/-- The class a descriptor makes with a parent. The version is checked first, then the length of
the chain, then that every static entry has a name. -/
def define (d : Descriptor) (parent : Option Class) : Except Fault Class :=
  let ancestors := (parent.map chain).getD []
  if d.version ≠ formatVersion then
    .error (.invalidClass ("unsupported version " ++ toString d.version))
  else if maxChain < ancestors.length + 1 then
    .error (.invalidClass ("parent chain deeper than " ++ toString maxChain))
  else if d.values.any (fun v => v.name.isEmpty) || d.functions.any (fun f => f.name.isEmpty) then
    .error (.invalidClass "static entry with an empty name")
  else .ok ⟨d, ancestors⟩

end Class

end HostObjects
