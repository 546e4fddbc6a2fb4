import HostObjects.Script.Answer
import HostObjects.Script.Step
import HostObjects.View.Session
import Std.Data.HashMap.Basic

/-!
# The world of a script

Everything a script has made: groups, contexts, heaps without a group, and the registers that hold
them. Nothing counts references. Who holds a class, a group or a context is read off the registers,
the objects and the blocks under way, and what nobody holds any more is dropped at once: a context
releases its global object, a group tears its heap down, and tearing down runs the finalizers of
everything that is left.

A block that works on a heap takes the heap from its owner and puts it on the stack `lent`; the heap
on top is the one at hand. So no heap is ever in two places.
-/

namespace HostObjects.Script

/-! ### What scripts make -/

/-- The identity of a context. -/
structure ContextId where
  number : Nat
deriving DecidableEq, Hashable, Inhabited

/-- A global object in a group, kept alive by a root. -/
structure Context where
  /-- The group, by the identity of its heap. -/
  group : HeapId
  global : Handle
  /-- The root that keeps it alive. -/
  root : RootPlace
  name : Option String

/-- A host function given by rules, or a finalizer given by acts. -/
structure ScriptedFunction where
  /-- The label under which it is logged. -/
  label : String
  /-- What it is for. -/
  role : Role
  rules : List Rule
  acts : List FinalizerAct

/-- A list of names that several registers may share. -/
structure NameArray where
  id : Nat
  names : List Text

/-- A heap at hand, with the classes that operations on it hold on to. -/
structure Lent where
  heap : Heap
  holding : List Class
deriving Inhabited

/-- The registers of a callback: the object, the value, the receiver and the arguments. -/
abbrev Frame := List (String × Value)

/-- Something that happened to the queue of a group. -/
inductive Occurrence where
  /-- A task was queued. -/
  | deferred (group : HeapId) (task : Task)
  /-- A task was taken off the queue to run. -/
  | started (group : HeapId) (task : Task)
  /-- A turn of the run loop has run its tasks, so many of them. -/
  | ran (group : HeapId) (tasks : Nat)

/-- A table of registers. -/
abbrev Table (α : Type) := Std.HashMap String α

/-- The registers, a table for each kind of thing. -/
structure Registers where
  /-- Values. They root nothing. -/
  values : Table Value := ∅
  classes : Table Class := ∅
  /-- Groups, by the identities of their heaps. -/
  groups : Table HeapId := ∅
  contexts : Table ContextId := ∅
  heaps : Table Heap := ∅
  managed : Table ManagedValue := ∅
  /-- Owned persistent roots. -/
  owned : Table OwnedRoot := ∅
  roots : Table RootPlace := ∅
  /-- Kept handles. -/
  weak : Table Handle := ∅
  arrays : Table NameArray := ∅

/-- Everything a script has made. -/
structure World where
  registers : Registers := {}
  groups : Std.HashMap HeapId (Group Task) := ∅
  contexts : Std.HashMap ContextId Context := ∅
  /-- The names under which heaps are shown. -/
  labels : Std.HashMap HeapId String := ∅
  functions : Std.HashMap HostFunction ScriptedFunction := ∅
  /-- How often rules were used, by function and position. -/
  uses : Std.HashMap (HostFunction × Nat) Nat := ∅
  /-- The numbers given out so far, for identities of every kind. -/
  issued : Nat := 0
  thread : ThreadId := ⟨0⟩
  /-- The heaps at hand, innermost first. -/
  lent : List Lent := []
  /-- The contexts whose views are open, innermost first. -/
  views : List ContextId := []
  /-- The groups that blocks under way hold. -/
  heldGroups : List HeapId := []
  /-- The contexts that blocks under way hold. -/
  heldContexts : List ContextId := []
  /-- The registers of the callbacks under way, innermost first. -/
  frames : List Frame := []
  /-- The events since the innermost step began, latest first. -/
  log : List Event := []
  /-- The trace of the run loops, latest first. Steps add to it; none reads it. -/
  past : List Occurrence := []

/-! ### Playing steps -/

/-- Why a step has no report. -/
inductive Stop where
  | fault (f : Fault)
  | refusal (r : Refusal)

/-- A part of a step. -/
abbrev Play := ExceptT Stop (StateM World)

namespace Play

/-- Ends the step in a refusal. -/
def refuse {α : Type} (r : Refusal) : Play α := throw (.refusal r)

/-- Ends the step in a fault. -/
def fail {α : Type} (f : Fault) : Play α := throw (.fault f)

/-- What an option holds, or a refusal. -/
def need {α : Type} : Option α → Play α
  | some a => return a
  | none => refuse .badOperand

/-- Changes the registers. -/
def editRegisters (f : Registers → Registers) : Play Unit :=
  modify fun w => { w with registers := f w.registers }

/-- A number not given out before. -/
def fresh : Play Nat :=
  modifyGet fun w => (w.issued, { w with issued := w.issued + 1 })

/-- Runs an action on the heap at hand. -/
def acting {α : Type} (act : Action World α) : Play α := fun w =>
  match w with
  | { lent := [], .. } => (.error (.refusal .badStep), w)
  | { lent := ⟨heap, holding⟩ :: rest, .. } =>
    let (r, ⟨heap, holding, w⟩) := act ⟨heap, holding, { w with lent := rest }⟩
    (r.mapError .fault, { w with lent := ⟨heap, holding⟩ :: w.lent })

/-- Reads from the heap at hand. -/
def reading {α : Type} (f : Heap → Except Fault α) : Play α := acting (Action.reading f)

/-- A view of the heap at hand. -/
def viewing {α : Type} (f : Heap → α) : Play α := reading fun h => .ok (f h)

/-- Changes the heap at hand. -/
def editing {α : Type} (f : Heap → α × Heap) : Play α :=
  acting (Action.editing fun h => let (a, h) := f h; (.ok a, h))

end Play

/-- Lets steps run in the middle of an action: the heap of the action is at hand for them. -/
def playing {α : Type} (act : StateM World α) : Action World α := fun s =>
  let ⟨heap, holding, w⟩ := s
  let (a, w) := act { w with lent := ⟨heap, holding⟩ :: w.lent }
  match w with
  | { lent := lent, .. } =>
    let ⟨heap, holding⟩ := lent.headD default
    (.ok a, ⟨heap, holding, { w with lent := lent.tail }⟩)

namespace World

/-! ### Events and labels -/

/-- Adds an event. -/
def note (e : Event) (w : World) : World := { w with log := e :: w.log }

/-- Adds to the trace of the run loops. -/
def trace (o : Occurrence) (w : World) : World := { w with past := o :: w.past }

/-- The name under which a heap is shown. -/
def label (w : World) (t : HeapId) : String := w.labels.getD t ""

/-! ### Holders of classes -/

/-- The heaps that are not in use by an action: those at hand further out, those in their groups
and those without a group. -/
def heaps (w : World) : List Heap :=
  w.lent.map Lent.heap ++ w.groups.toList.filterMap (fun g => g.2.heap) ++
    w.registers.heaps.toList.map Prod.snd

/-- The classes that the objects of a heap refer to. -/
def classesIn (h : Heap) : List Class :=
  h.slots.toList.flatMap fun s => (s.occupant.map HostObject.classes).getD []

/-- Every holder of a class, as the class it holds: a class is listed once for each holder, the
links from classes to their parents apart. -/
def holders (w : World) : List Class :=
  w.registers.classes.toList.map Prod.snd ++ w.lent.flatMap Lent.holding ++
    w.heaps.flatMap classesIn

/-- Whether a class, or a class derived from it, has a holder. -/
def holdsClass (w : World) (id : ClassId) : Bool :=
  w.registers.classes.toList.any (fun c => c.2.inheritsFrom id) ||
    w.lent.any (fun l => l.holding.any fun c => c.inheritsFrom id) ||
    w.heaps.any fun h => h.slots.any fun s => s.occupant.any fun o => o.usesClass id

/-- The classes directly derived from a class, as far as a class chain shows. -/
def childrenIn (id : ClassId) : List Descriptor → List ClassId
  | d :: e :: ds => (if e.id = id then [d.id] else []) ++ childrenIn id (e :: ds)
  | _ => []

/-- The number of references to a class: its holders, and the classes directly derived from it. -/
def classRefs (w : World) (id : ClassId) : Nat :=
  let hs := w.holders
  (hs.filter fun c => c.id = id).length +
    (hs.flatMap fun c => childrenIn id c.chain).eraseDups.length

/-! ### Holders of contexts and groups -/

/-- The number of references to a context. -/
def contextRefs (w : World) (id : ContextId) : Nat :=
  (w.registers.contexts.toList.filter fun c => c.2 = id).length + w.heldContexts.count id

/-- The number of references to a group; every context of the group has one. -/
def groupRefs (w : World) (t : HeapId) : Nat :=
  (w.registers.groups.toList.filter fun g => g.2 = t).length +
    (w.contexts.toList.filter fun c => c.2.group = t).length + w.heldGroups.count t

/-- Changes a group that is alive. -/
def changeGroup (t : HeapId) (f : Group Task → Group Task) (w : World) : World :=
  match w.groups[t]? with
  | some g => { w with groups := w.groups.insert t (f g) }
  | none => w

/-- Queues a task of a group that is alive. -/
def defer (t : HeapId) (task : Task) (w : World) : World :=
  match w.groups[t]? with
  | some g => { w with groups := w.groups.insert t (g.defer task) }.trace (.deferred t task)
  | none => w

/-- Queues a task of the group of a register, if there is one. -/
def deferAt (group : String) (task : Task) (w : World) : World :=
  match w.registers.groups[group]? with
  | some t => w.defer t task
  | none => w

/-- Leaves something to be undone to a group, if it is alive. -/
def release (t : HeapId) (r : Release) (w : World) : World := w.changeGroup t (Group.release r)

/-- Drops a managed value. -/
def dropManaged (m : ManagedValue) (w : World) : World :=
  match m.owner, m.value with
  | some owner, .object o => w.release m.heap (.edge owner (.object o))
  | _, _ => w

/-- Drops an owned persistent root. -/
def dropOwned (r : OwnedRoot) (w : World) : World := w.release r.heap (.root r.root)

/-- Drops private data. -/
def discard (data : PrivateData) (w : World) : World :=
  match data with
  | .managed m => w.dropManaged m
  | .root r => w.dropOwned r
  | .word _ | .string _ => w

end World

/-! ### Finalizers -/

/-- The description of private data. -/
def describe : Option PrivateData → Report
  | some (.word n) => .parts [("u32", .nat n.toNat)]
  | some (.string s) => .parts [("str", .string s)]
  | some (.managed _) => .string "managed"
  | some (.root _) => .string "proot"
  | none => .null

/-- What a look at private data shows: words and strings. -/
def peek : Option PrivateData → Report
  | some (.word n) => describe (some (.word n))
  | some (.string s) => describe (some (.string s))
  | _ => .null

/-- Runs the acts of a finalizer. -/
def runActs : List FinalizerAct → Option PrivateData → World →
    List Report × Option PrivateData × World
  | [], data, w => ([], data, w)
  | .peek :: acts, data, w =>
    let (rs, rest) := runActs acts data w
    (peek data :: rs, rest)
  | .add n :: acts, some (.word m), w =>
    let sum := some (PrivateData.word (m + n))
    let (rs, rest) := runActs acts sum w
    (describe sum :: rs, rest)
  | .add _ :: acts, data, w =>
    let (rs, rest) := runActs acts data w
    (.null :: rs, rest)
  | .take :: acts, data, w =>
    let w := match data with
      | some d => w.discard d
      | none => w
    let (rs, rest) := runActs acts none w
    (describe data :: rs, rest)
  | .defer group label body :: acts, data, w =>
    let (rs, rest) := runActs acts data (w.deferAt group ⟨label, body⟩)
    (.null :: rs, rest)

/-- Runs a scripted finalizer and notes it. -/
def runFinalizer (f : HostFunction) (o : Handle) (d : Descriptor) (data : Option PrivateData)
    (w : World) : Option PrivateData × World :=
  match w.functions[f]? with
  | some fn =>
    let (rs, data, w) := runActs fn.acts data w
    (data, w.note (.finalized fn.label d.name o rs))
  | none => (data, w)

/-- How scripted hosts part with objects. -/
def reclaimer : Reclaimer World := ⟨runFinalizer, World.discard⟩

namespace World

/-! ### Dropping what nobody holds -/

/-- Drops a group that nobody holds: its heap is torn down. -/
def settleGroup (t : HeapId) (w : World) : World :=
  if w.groupRefs t = 0 then
    match w.groups[t]? with
    | some g =>
      let w := { w with groups := w.groups.erase t }
      match g.heap with
      | some h => letAllGo reclaimer h.remains w
      | none => w
    | none => w
  else w

/-- Drops a context that nobody holds: its global object is released, then its group may go. -/
def settleContext (id : ContextId) (w : World) : World :=
  if w.contextRefs id = 0 then
    match w.contexts[id]? with
    | some c =>
      let w := w.release c.group (.root c.root)
      { w with contexts := w.contexts.erase id }.settleGroup c.group
    | none => w
  else w

/-- Runs steps while a context is held. -/
def holdingContext {α : Type} (id : ContextId) (act : Play α) : Play α := fun w =>
  let (r, w) := act { w with heldContexts := id :: w.heldContexts }
  (r, { w with heldContexts := w.heldContexts.erase id }.settleContext id)

/-- Runs steps while a group is held. -/
def holdingGroup {α : Type} (t : HeapId) (act : Play α) : Play α := fun w =>
  let (r, w) := act { w with heldGroups := t :: w.heldGroups }
  (r, { w with heldGroups := w.heldGroups.erase t }.settleGroup t)

end World

namespace Play

/-! ### Registers -/

/-- The value of a value register, or of a register of the innermost callback. -/
def lookUp (w : World) (name : String) : Option Value :=
  if name.startsWith "$" then (w.frames.headD []).lookup name
  else w.registers.values[name]?

/-- The value of an operand. -/
def evaluate (w : World) : Operand → Value
  | .literal v => v
  | .register name => (lookUp w name).getD .undefined

/-- The value of an operand. -/
def value (o : Operand) : Play Value := return evaluate (← get) o

/-- The object of a register. -/
def object (name : String) : Play Handle := do
  need ((lookUp (← get) name).bind Value.object?)

/-- The object of a register, if one is named. -/
def object? : Option String → Play (Option Handle)
  | some name => return some (← object name)
  | none => return none

/-- A node of an external edge. -/
def node : NodeOperand → Play Node
  | .host k => return .host k
  | .register name => return .object (← object name)

/-- The class of a register. -/
def classAt (name : String) : Play Class := do need (← get).registers.classes[name]?

/-- The class of a register, if one is named. -/
def class? : Option String → Play (Option Class)
  | some name => return some (← classAt name)
  | none => return none

/-- The group of a register. -/
def groupAt (name : String) : Play HeapId := do need (← get).registers.groups[name]?

/-- The context of a register. -/
def contextIdAt (name : String) : Play ContextId := do need (← get).registers.contexts[name]?

/-- A context that is alive. -/
def contextOf (id : ContextId) : Play Context := do need (← get).contexts[id]?

/-- A group that is alive. -/
def groupOf (t : HeapId) : Play (Group Task) := do need (← get).groups[t]?

/-- Stores a value in a register, if one is named. -/
def store (as : Option String) (v : Value) : Play Unit :=
  match as with
  | some name => editRegisters fun r => { r with values := r.values.insert name v }
  | none => return ()

/-- Stores a class. -/
def storeClass (as : String) (c : Class) : Play Unit :=
  editRegisters fun r => { r with classes := r.classes.insert as c }

/-- Stores a group; the one that was there loses a holder. -/
def storeGroup (as : String) (t : HeapId) : Play Unit := do
  let old := (← get).registers.groups[as]?
  editRegisters fun r => { r with groups := r.groups.insert as t }
  if let some old := old then modify fun w => w.settleGroup old

/-- Stores a context; the one that was there loses a holder. -/
def storeContext (as : String) (id : ContextId) : Play Unit := do
  let old := (← get).registers.contexts[as]?
  editRegisters fun r => { r with contexts := r.contexts.insert as id }
  if let some old := old then modify fun w => w.settleContext old

/-- Empties a register of a context. -/
def dropContext (name : String) : Play Bool := do
  match (← get).registers.contexts[name]? with
  | some id =>
    editRegisters fun r => { r with contexts := r.contexts.erase name }
    modify fun w => w.settleContext id
    return true
  | none => return false

/-- Empties a register of a group. -/
def dropGroup (name : String) : Play Bool := do
  match (← get).registers.groups[name]? with
  | some t =>
    editRegisters fun r => { r with groups := r.groups.erase name }
    modify fun w => w.settleGroup t
    return true
  | none => return false

/-- Empties a register of a heap without a group; the heap is torn down. -/
def dropHeap (name : String) : Play Bool := do
  match (← get).registers.heaps[name]? with
  | some h =>
    editRegisters fun r => { r with heaps := r.heaps.erase name }
    modify fun w => letAllGo reclaimer h.remains w
    return true
  | none => return false

/-- Takes a managed value out of its register. -/
def takeManaged (name : String) : Play (Option ManagedValue) := do
  let m := (← get).registers.managed[name]?
  editRegisters fun r => { r with managed := r.managed.erase name }
  return m

/-- Takes an owned persistent root out of its register. -/
def takeOwned (name : String) : Play (Option OwnedRoot) := do
  let p := (← get).registers.owned[name]?
  editRegisters fun r => { r with owned := r.owned.erase name }
  return p

/-- Empties a register of a managed value. -/
def dropManaged (name : String) : Play Bool := do
  match ← takeManaged name with
  | some m =>
    modify fun w => w.dropManaged m
    return true
  | none => return false

/-- Empties a register of an owned persistent root. -/
def dropOwned (name : String) : Play Bool := do
  match ← takeOwned name with
  | some p =>
    modify fun w => w.dropOwned p
    return true
  | none => return false

/-- Private data, moved out of its register if it is in one; an empty register gives none. -/
def privateData : Option PrivateOperand → Play (Option PrivateData)
  | none => return none
  | some (.word n) => return some (.word n)
  | some (.string s) => return some (.string s)
  | some (.managed name) => do return (← takeManaged name).map .managed
  | some (.root name) => do return (← takeOwned name).map .root

/-! ### Heaps at hand -/

/-- Runs steps with the heap of a group at hand. -/
def withGroup {α : Type} (t : HeapId) (act : Play α) : Play α := do
  let g ← groupOf t
  match g.lend? with
  | none => refuse .wouldBlock
  | some (heap, g) =>
    modify fun w => { w with groups := w.groups.insert t g, lent := ⟨heap, []⟩ :: w.lent }
    try act
    finally
      modify fun w =>
        let heap := (w.lent.headD default).heap
        { w with lent := w.lent.tail }.changeGroup t (Group.giveBack heap)

/-- Runs steps in a view of a context; the roots of the view go with it. -/
def withView {α : Type} (id : ContextId) (act : Play α) : Play α := do
  let c ← contextOf id
  withGroup c.group do
    modify fun w => { w with views := id :: w.views }
    let height ← viewing fun h => h.stack.size
    try act
    finally
      editing fun h => ((), h.cutStack height)
      modify fun w => { w with views := w.views.tail }

/-- The context of the view at hand. -/
def viewContext : Play (ContextId × Context) := do
  let id ← need (← get).views.head?
  return (id, ← contextOf id)

/-- Takes the heap of a group for a moment, which applies the releases that waited for it. Refuses
if the heap is taken. -/
def needUnlocked (t : HeapId) : Play Unit := withGroup t (return ())

end Play

end HostObjects.Script
