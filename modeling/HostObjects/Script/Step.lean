import HostObjects.Group.Basic

/-!
# Scripts

A script drives the library: a list of steps, each one operation, over named registers that hold
what earlier steps made. Steps work in one of three environments. Outside, only general steps
apply; with a heap at hand also heap steps; with a view open also view steps. Blocks run further
steps in another environment.

The callbacks of scripted classes are lists of rules. A rule says for which inputs it is used, which
steps it runs, and with what it answers. So a callback can do all that a script can do with the view
it is given.

The types here are mere data. They take the type of steps as a parameter where a step contains
rules, because rules contain steps again; `Step` closes the circle.
-/

namespace HostObjects.Script

/-! ### Operands -/

/-- A value as a step names it. -/
inductive Operand where
  | literal (v : Value)
  /-- The value of a register, `undefined` if there is none. -/
  | register (name : String)
deriving Inhabited

/-- A node of an external edge as a step names it. -/
inductive NodeOperand where
  | host (key : HostNode)
  /-- The object of a register. -/
  | register (name : String)

/-- Private data as a step names it. -/
inductive PrivateOperand where
  | word (n : UInt32)
  | string (s : String)
  /-- The managed value of a register, which is moved out of it. -/
  | managed (name : String)
  /-- The persistent root of a register, which is moved out of it. -/
  | root (name : String)

/-- A fault as a step names it. -/
inductive FaultOperand where
  | thrown (v : Operand)
  | fault (f : Fault)

/-! ### Callbacks -/

/-- What a finalizer does, over steps of type `S`: with the private data of a dying object, or to
the run loop of a group. -/
inductive FinalizerActOf (S : Type) where
  | peek
  | add (n : UInt32)
  | take
  /-- Queue a task on the run loop of the group of a register. -/
  | defer (group label : String) (body : List S)

/-- What a rule asks of an input of type `β`. -/
inductive Condition (β : Type) where
  | any
  /-- That it is this one. -/
  | equals (x : β)
  /-- What no input has. -/
  | never
deriving Inhabited

/-- A rule of a callback, over steps of type `S`. -/
structure RuleOf (S : Type) where
  /-- The property names it is for. -/
  name : Condition Text
  /-- The conversion hints it is for. -/
  hint : Condition String
  /-- The numbers of arguments it is for. -/
  argc : Condition Nat
  /-- The numbers of names listed so far that it is for. -/
  listed : Condition Nat
  /-- How often it is used at most. -/
  times : Option Nat
  /-- The steps it runs; a fault in one ends the callback unless the step catches it. -/
  steps : Option (List (Bool × S))
  /-- The fault it ends with. -/
  fault : Option FaultOperand
  /-- The value it answers with. -/
  result : Option Operand
  /-- The names it answers with. -/
  names : List Text
deriving Inhabited

/-- A static value, over steps of type `S`. -/
structure ValueSpecOf (S : Type) where
  name : String
  attributes : Attributes
  getter : Option (List (RuleOf S))
  setter : Option (List (RuleOf S))

/-- A static function, over steps of type `S`. -/
structure FunctionSpecOf (S : Type) where
  name : String
  attributes : Attributes
  call : List (RuleOf S)

/-- A class declaration, over steps of type `S`. -/
structure ClassSpecOf (S : Type) where
  version : Nat
  name : String
  /-- Whether the class has a shared prototype. -/
  automatic : Bool
  parent : Option String
  values : List (ValueSpecOf S)
  functions : List (FunctionSpecOf S)
  /-- The callbacks, finalizers apart. -/
  callbacks : List (Operation × List (RuleOf S))
  finalizer : Option (List (FinalizerActOf S))
deriving Inhabited

/-! ### Steps -/

/-- What a diagnostic text is asked of. -/
inductive Subject where
  | ofClass (name : String)
  | group (name : String)
  | context (name : String)
  | managed (name : String)
  | root (name : String)
  | value (v : Operand)

/-- The operations that apply everywhere. -/
inductive General where
  /-- A value, to be stored. -/
  | given (v : Operand)
  | valueInfo (v : Operand)
  | compareValues (a b : Operand)
  | textInfo (t : Text)
  | quoted (t : Text)
  | indexText (i : UInt32)
  /-- The order of two texts; `other` is the second as a string, if it was given as one. -/
  | compareTexts (a b : Text) (other : Option String)
  | attributes (a b : Attributes)
  /-- A list of names without repetitions, to be kept. -/
  | arrayNew (as : String) (names : List Text)
  | arrayClone (a as : String)
  /-- One holder of a list of names less. -/
  | arrayDrop (a : String)
  | arrayInfo (a : String) (i : Nat) (k : Text)
  /-- The options of a group as read, if they could be read. -/
  | options (o : Option GroupOptions)
  | constants
  | handleInfo (o : String)
  | weakNew (o as : String)
  | faultInfo (f : FaultOperand)
  | diagnostic (s : Subject)
  /-- One holder of a class less. -/
  | classDrop (c : String)
  /-- Another holder of a class. -/
  | classClone (c as : String)
  | classRefs (c : String)
  | classInfo (c : String)
  | classLookup (c : String) (k : Text)
  | classRelation (a b : String)
  /-- A new group, if its options could be read. -/
  | groupNew (as : String) (options : Option GroupOptions)
  | groupClone (g as : String)
  | groupDrop (g : String)
  | groupInfo (g : String)
  | groupEqual (a b : String)
  | groupCollect (g : String)
  /-- Whether the run loop has anything to do. -/
  | hasPendingWork (g : String)
  /-- A new context, in a group of its own unless one is named. -/
  | contextNew (as : String) (group : Option String) (globalClass : Option String)
  | contextClone (c as : String)
  | contextDrop (c : String)
  | contextGroup (c as : String)
  | contextInfo (c : String)
  | contextName (c : String) (name : Option String)
  /-- Whether two registers hold the same context, and contexts of the same group. -/
  | contextEqual (a b : String)
  | contextCollect (c : String)
  | tryEnter (c : String)
  | heapNew (as : String) (limits : Limits) (mode : CollectionMode)
  /-- The end of a heap without a group. -/
  | heapDrop (h : String)
  | rootDrop (p : String)
  | managedDrop (m : String)
  /-- The owner of a managed value. -/
  | managedOwner (m : String)
  /-- No operation of this library. -/
  | unknown

/-- The operations on the heap at hand. -/
inductive HeapStep where
  | stats
  | setMode (mode : CollectionMode)
  | collect
  | alloc
  | isValid (o : String)
  | objectPrototype
  | functionPrototype
  | getPrototype (o : String)
  | setPrototype (o : String) (p : Option String)
  | className (o : String)
  | ownHas (o : String) (k : Text)
  | ownGet (o : String) (k : Text)
  | ownAttributes (o : String) (k : Text)
  | ownDefine (o : String) (k : Text) (v : Operand) (attributes : Attributes)
  | ownPut (o : String) (k : Text) (v : Operand) (attributes : Attributes)
  | ownDelete (o : String) (k : Text)
  | ownNames (o : String)
  | rootAdd (as : String) (v : Operand)
  | rootGet (r : String)
  | rootSet (r : String) (v : Operand)
  | rootRemove (r : String)
  | pin (v : Operand)
  | unpin (v : Operand)
  | pinCount (o : String)
  | edgeAdd (owner target : NodeOperand)
  | edgeRemove (owner target : NodeOperand)
  | edgeCount (owner target : NodeOperand)
  | hostRootAdd (key : HostNode)
  /-- One declaration of a host node less. -/
  | hostRootRemove (key : HostNode)
  /-- The object of a kept handle, if it is still there. -/
  | weakUpgrade (w : String)

/-- The type that private data is asked as. -/
inductive PrivateType where
  | word
  | string
  | other
deriving DecidableEq

/-- The operations on the view at hand. -/
inductive ViewStep where
  | makeObject (ofClass : Option String) (data : Option PrivateOperand)
  | has (o : String) (k : Text)
  | get (o : String) (k : Text)
  | set (o : String) (k : Text) (v : Operand) (attributes : Attributes)
  | delete (o : String) (k : Text)
  /-- Names of the properties, to be kept if a register is named. -/
  | names (as : Option String) (o : String)
  /-- Value of the property of an index. -/
  | getIndex (o : String) (i : UInt32)
  | setIndex (o : String) (i : UInt32) (v : Operand)
  | hasKey (o : String) (k : Operand)
  /-- Value of the property a value names. -/
  | getKey (o : String) (k : Operand)
  | setKey (o : String) (k v : Operand) (attributes : Attributes)
  | deleteKey (o : String) (k : Operand)
  | call (o : String) (this : Operand) (args : List Operand)
  | construct (o : String) (args : List Operand)
  | instanceOf (o : String) (v : Operand)
  | convert (o : String) (hint : Kind)
  | toBool (v : Operand)
  | toNumber (v : Operand)
  | toText (v : Operand)
  | getPrototype (o : String)
  | setPrototype (o : String) (p : Option String)
  | classPrototype (c : String)
  | objectInfo (o : String)
  | isOfClass (o c : String)
  /-- The private data, if it has the type. -/
  | privateGet (o : String) (type : PrivateType)
  /-- An addition to private data that is a word. -/
  | privateAdd (o : String) (n : UInt32)
  | privateSet (o : String) (data : Option PrivateOperand)
  /-- The private data, taken away. -/
  | privateTake (o : String)
  | global
  | viewInfo
  /-- Whether the view is of a context, and of a context of its group. -/
  | sameContext (c : String)
  | pushRoot (v : Operand)
  | rootNew (as : String) (v : Operand)
  | rootGet (p : String)
  | rootSet (p : String) (v : Operand)
  | managedNew (as : String) (v : Operand) (owner : Option NodeOperand)
  | managedGet (m : String)

/-- A step of a script. A value it results in is stored in the register `as`, if one is named. -/
inductive Step where
  | general (as : Option String) (op : General)
  | heap (as : Option String) (op : HeapStep)
  /-- An operation on the view; a thrown value may be swallowed. -/
  | view (as : Option String) (swallow : Bool) (op : ViewStep)
  | classNew (as : String) (spec : ClassSpecOf Step)
  | makeFunction (as : Option String) (name : String) (call : List (RuleOf Step))
  /-- A new constructor, with a callback if there are rules. -/
  | makeConstructor (as : Option String) (ofClass : Option String)
      (construct : Option (List (RuleOf Step)))
  | defer (group label : String) (body : List Step)
  /-- One turn of the run loop, on another thread if asked. -/
  | runDeferred (group : String) (elsewhere : Bool)
  /-- The steps, a number of times; the answers are those of the last round. -/
  | repeated (times : Nat) (body : List Step)
  | enter (context : String) (body : List Step)
  | scope (body : List Step)
  /-- The steps with the heap of a group. -/
  | lock (group : String) (body : List Step)
  /-- The steps with a heap that has no group. -/
  | withHeap (heap : String) (body : List Step)

instance : Inhabited Step := ⟨.scope []⟩

/-- A rule of a callback. -/
abbrev Rule := RuleOf Step

/-- A class declaration. -/
abbrev ClassSpec := ClassSpecOf Step

/-- What a finalizer does. -/
abbrev FinalizerAct := FinalizerActOf Step

/-- A task of a run loop. -/
structure Task where
  /-- The label under which it is logged. -/
  label : String
  body : List Step

/-- The task that an act defers, if it defers one. -/
def FinalizerActOf.task? : FinalizerAct → Option Task
  | .defer _ label body => some ⟨label, body⟩
  | .peek | .add _ | .take => none

end HostObjects.Script
