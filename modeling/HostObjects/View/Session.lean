import HostObjects.Heap.ClassPrototype
import HostObjects.Heap.Prototype

/-!
# Views

A view is the open access to a heap through which operations run. Its state is a `Session`: the
heap, the classes that operations under way hold on to, and the state of the host. An operation is
an `Action`: it may fail, and what it did before the failure stays done.

What the host's functions do is a parameter of every operation. A `Request` is what a host function
is asked, indexed by the type of the answer, and a `Host` answers requests by actions of its own.
So a callback may do anything an action does: run operations on the same heap, collect, change
prototype links or fail. Nothing in this library assumes more of a callback.

Rooting is by scope. `operating` roots the target of an operation, `rootOperand` each further
operand, and the end of the scope cuts the stack back to its former height.
-/

namespace HostObjects

/-- What a host function is asked, indexed by the type of its answer. -/
inductive Request : Type → Type where
  | setUp (o : Handle) : Request Unit
  | has (o : Handle) (name : Text) : Request Bool
  /-- The value of the property, or no answer. -/
  | get (o : Handle) (name : Text) : Request (Option Value)
  /-- Take a write; `true` ends the operation. -/
  | set (o : Handle) (name : Text) (value : Value) : Request Bool
  /-- Delete the property; `true` ends the operation. -/
  | delete (o : Handle) (name : Text) : Request Bool
  /-- Names to add to those listed so far, of which the count is told. -/
  | names (o : Handle) (listed : Nat) : Request (List Text)
  | call (f : Handle) (this : Value) (args : List Value) : Request Value
  | construct (f : Handle) (args : List Value) : Request Handle
  | hasInstance (f : Handle) (value : Value) : Request Bool
  /-- The object as a value of the kind, or no answer. -/
  | convert (o : Handle) (hint : Kind) : Request (Option Value)

/-- The state that operations of a view act on. -/
structure Session (σ : Type) where
  heap : Heap
  /-- The classes that operations under way hold on to. -/
  holding : List Class
  host : σ

/-- An operation of a view. -/
abbrev Action (σ : Type) := ExceptT Fault (StateM (Session σ))

/-- How a host parts with dying objects and with private data. -/
structure Reclaimer (σ : Type) where
  /-- Runs a finalizer on a dying object of the class and its private data, of which it returns
  what it left. -/
  finalize : HostFunction → Handle → Descriptor → Option PrivateData → σ →
    Option PrivateData × σ
  /-- Drops private data and releases what it owns. -/
  discard : PrivateData → σ → σ

/-- What the host contributes to the operations of a view. -/
structure Host (σ : Type) extends Reclaimer σ where
  /-- Answers a request by the host function. -/
  answer : {α : Type} → HostFunction → Request α → Action σ α
  /-- Whether the host, or anything outside the heap of the view, holds the class. -/
  holds : σ → ClassId → Bool

variable {σ : Type}

/-! ### Finalizers -/

/-- Runs the finalizers of a class chain, each on the private data that the one before left. -/
def finalizeAlong (host : Reclaimer σ) (o : Handle) :
    List Descriptor → Option PrivateData → σ → Option PrivateData × σ
  | [], data, s => (data, s)
  | d :: ds, data, s =>
    match d.callbacks .finalize with
    | some f =>
      let (data, s) := host.finalize f o d data s
      finalizeAlong host o ds data s
    | none => finalizeAlong host o ds data s

/-- Drops private data, if there is any. -/
def discardAll (host : Reclaimer σ) : Option PrivateData → σ → σ
  | some data, s => host.discard data s
  | none, s => s

/-- Lets a swept object go: its finalizers run, most derived first, then its private data is
dropped. -/
def letGo (host : Reclaimer σ) (r : Reaped) (s : σ) : σ :=
  let chain := (r.object.ofClass.map Class.chain).getD []
  let (data, s) := finalizeAlong host r.handle chain r.object.privateData s
  discardAll host data s

/-- Lets swept objects go, in order. -/
def letAllGo (host : Reclaimer σ) (rs : List Reaped) (s : σ) : σ :=
  rs.foldl (fun s r => letGo host r s) s

namespace Action

/-! ### Reaching the heap -/

/-- Whether a class is held from outside the heap: by the host or by an operation under way. -/
def heldOutside (host : Host σ) (s : Session σ) (id : ClassId) : Bool :=
  s.holding.any (fun c => c.inheritsFrom id) || host.holds s.host id

/-- Reads from the heap. -/
def reading {α : Type} (f : Heap → Except Fault α) : Action σ α := fun s => (f s.heap, s)

/-- Changes the heap in a way that runs no collection. -/
def editing {α : Type} (act : HeapM α) : Action σ α := fun s =>
  let ⟨heap, holding, host⟩ := s
  let (r, heap) := act heap
  (r, ⟨heap, holding, host⟩)

/-- Lets go of the objects that collections have swept. -/
def settle (host : Host σ) (s : Session σ) : Session σ :=
  match s with
  | ⟨heap, holding, st⟩ =>
    match heap.reaped with
    | [] => ⟨heap, holding, st⟩
    | r :: rs => ⟨{ heap with reaped := [] }, holding, letAllGo host.toReclaimer (r :: rs) st⟩

/-- Runs a heap operation that may collect; finalizers run before it returns. -/
def allocating {α : Type} (host : Host σ) (act : (ClassId → Bool) → HeapM α) : Action σ α :=
  fun s =>
    let held := heldOutside host s
    let ⟨heap, holding, st⟩ := s
    let (r, heap) := act held heap
    (r, settle host ⟨heap, holding, st⟩)

/-- Runs a collection. -/
def collect (host : Host σ) : Action σ Unit :=
  allocating host fun held h => (.ok (), h.collect held)

/-- Drops private data. -/
def discarding (host : Host σ) (data : Option PrivateData) : Action σ Unit := fun s =>
  (.ok (), { s with host := discardAll host.toReclaimer data s.host })

/-! ### Rooting -/

/-- Roots a value in the view. -/
def push (v : Value) : Action σ Unit := fun s =>
  let ⟨heap, holding, st⟩ := s
  (.ok (), ⟨heap.pushRoot v, holding, st⟩)

/-- Whether the collector can make sense of a value as a root: a stale handle of this heap it
cannot. -/
def isRootable (h : Heap) : Value → Bool
  | .object o => o.heap ≠ h.id || h.isValid o
  | _ => false

/-- Roots an object operand or result; anything else needs no root. -/
def rootOperand (v : Value) : Action σ Unit := fun s =>
  if isRootable s.heap v then push v s else (.ok (), s)

/-- The value of a managed value, rooted in the view; an object that is gone gives none. -/
def managedValue (m : ManagedValue) : Action σ (Option Value) := do
  match m.value with
  | .object o =>
    match ← reading fun h => .ok (h.upgrade? o) with
    | some o =>
      push (.object o)
      return some (.object o)
    | none => return none
  | v => return some v

/-- Runs an action in a rooting scope: the stack is cut back at its end. -/
def inScope {α : Type} (act : Action σ α) : Action σ α := fun s =>
  let height := s.heap.stack.size
  let (r, ⟨heap, holding, st⟩) := act s
  (r, ⟨heap.cutStack height, holding, st⟩)

/-- Runs an action on an object: the handle is checked first, and the object is rooted while the
action runs. -/
def operating {α : Type} (o : Handle) (act : Action σ α) : Action σ α := do
  reading fun h => h.check o
  inScope do
    rootOperand (.object o)
    act

/-- Runs an action that holds on to classes. -/
def holding {α : Type} (cs : List Class) (act : Action σ α) : Action σ α := fun s =>
  let ⟨heap, held, st⟩ := s
  let (r, ⟨heap, _, st⟩) := act ⟨heap, cs ++ held, st⟩
  (r, ⟨heap, held, st⟩)

end Action

end HostObjects
