import HostObjects.Heap.Basic

/-!
# Roots, pins and external edges

The ways to keep an object alive without a property that holds it. A persistent root is known by
its place in a table whose empty places are used again. Pins and external edges are counted: each
addition is undone by one removal, and a removal without an addition does nothing.
-/

namespace HostObjects.Heap

/-! ### The stack of open views -/

/-- Roots a value until the stack is cut back below it. -/
def pushRoot (v : Value) (h : Heap) : Heap := { h with stack := h.stack.push v }

/-- Takes the newest value off the stack. -/
def popRoot (h : Heap) : Heap := { h with stack := h.stack.pop }

/-- Cuts the stack back to a height. -/
def cutStack (height : Nat) (h : Heap) : Heap := { h with stack := h.stack.shrink height }

/-- Runs an operation while a value is rooted. -/
def rooting {α : Type} (v : Value) (act : HeapM α) : HeapM α := fun h =>
  let (r, h) := act (h.pushRoot v)
  (r, h.popRoot)

/-! ### Persistent roots -/

/-- Keeps a value alive until its root is removed. The place freed last is used first. -/
def addRoot (v : Value) (h : Heap) : RootPlace × Heap :=
  match h.freeRoots with
  | i :: rest => (⟨i⟩, { h with roots := h.roots.setIfInBounds i (some v), freeRoots := rest })
  | [] => (⟨h.roots.size⟩, { h with roots := h.roots.push (some v) })

/-- The value of a persistent root. -/
def root? (h : Heap) (r : RootPlace) : Option Value := (h.roots[r.index]?).join

/-- Changes the value of a persistent root; an empty place stays empty. -/
def setRoot (r : RootPlace) (v : Value) (h : Heap) : Heap :=
  match h.root? r with
  | some _ => { h with roots := h.roots.setIfInBounds r.index (some v) }
  | none => h

/-- Removes a persistent root; an empty place stays empty. -/
def removeRoot (r : RootPlace) (h : Heap) : Heap :=
  match h.root? r with
  | some _ =>
    { h with roots := h.roots.setIfInBounds r.index none, freeRoots := r.index :: h.freeRoots }
  | none => h

/-! ### Pins -/

/-- Pins an object; primitives need no pin. -/
def pin (v : Value) : HeapM Unit := fun h =>
  match v with
  | .object o =>
    match h.check o with
    | .ok () => (.ok (), { h with pins := h.pins.add o })
    | .error e => (.error e, h)
  | _ => (.ok (), h)

/-- Takes one pin off an object, if it has one. -/
def unpin (v : Value) (h : Heap) : Heap :=
  match v with
  | .object o => { h with pins := (h.pins.remove o).2 }
  | _ => h

/-- How often an object is pinned. -/
def pinCount (h : Heap) (o : Handle) : Nat := h.pins.count o

/-! ### External edges -/

/-- Checks that an object at the end of an edge is valid. -/
def checkNode (h : Heap) : Node → Except Fault Unit
  | .object o => h.check o
  | .host _ => .ok ()

/-- Registers an edge: while the owner is reached, so is the target. -/
def addEdge (owner target : Node) : HeapM Unit := fun h =>
  match h.checkNode owner with
  | .error e => (.error e, h)
  | .ok () =>
    match h.checkNode target with
    | .error e => (.error e, h)
    | .ok () => (.ok (), { h with edges := h.edges.add owner target })

/-- How often an edge is registered. -/
def edgeCount (h : Heap) (owner target : Node) : Nat := h.edges.count owner target

/-- Removes one registration of an edge; the answer says whether there was one. -/
def removeEdge (owner target : Node) (h : Heap) : Bool × Heap :=
  ((h.edges.remove owner target).1, { h with edges := (h.edges.remove owner target).2 })

/-- The number of different edges. -/
def distinctEdges (h : Heap) : Nat := h.edges.size

/-- Declares a host node alive once more. -/
def addHostRoot (key : HostNode) (h : Heap) : Heap := { h with hostRoots := h.hostRoots.add key }

/-- Takes back one declaration of a host node; the answer says whether there was one. -/
def removeHostRoot (key : HostNode) (h : Heap) : Bool × Heap :=
  ((h.hostRoots.remove key).1, { h with hostRoots := (h.hostRoots.remove key).2 })

/-! ### Owned roots and managed values -/

/-- An owned persistent root for a value. -/
def newOwnedRoot (v : Value) : HeapM OwnedRoot := do
  reading fun h => h.checkStorable v
  modifyGet fun h =>
    let id := h.id
    let (r, h) := h.addRoot v
    (⟨r, id⟩, h)

/-- A managed value. Only an object has use for an owner. -/
def newManaged (v : Value) (owner : Option Node) : HeapM ManagedValue := do
  let id := (← get).id
  match owner, v with
  | some owner, .object o =>
    addEdge owner (.object o)
    return ⟨v, some owner, id⟩
  | _, _ => return ⟨v, none, id⟩

end HostObjects.Heap
