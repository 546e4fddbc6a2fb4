import HostObjects.Script.Callback

/-!
# Heap steps

What the steps on the heap at hand do. A step results either in a value, which may be stored, or in
a report.
-/

namespace HostObjects.Script

/-- What a step results in. -/
inductive Result where
  /-- A value, which may be stored. -/
  | value (v : Value)
  | report (r : Report)

namespace Result

/-- No result. -/
def nothing : Result := .report .null

/-- A truth value as a report. -/
def bool (b : Bool) : Result := .report (.bool b)

/-- An object as a value. -/
def object (o : Handle) : Result := .value (.object o)

/-- An object as a value, null if there is none. -/
def object? : Option Handle → Result
  | some o => object o
  | none => .value .null

/-- A value, or a word in its place. -/
def valueOr (word : String) : Option Value → Result
  | some v => .value v
  | none => .report (.string word)

end Result

/-- A list of names as a report. -/
def namesReport (names : List Text) : Report := .list (names.map .text)

/-- The counts of a heap. -/
def statsReport (h : Heap) : Report :=
  .parts
    [("used", .nat h.used), ("runs", .nat h.collections), ("live", .nat h.liveCount),
     ("scheduled", .bool h.scheduled), ("edges", .nat h.distinctEdges),
     ("protos", .nat h.classPrototypes.length), ("max", .nat h.limits.maxBytes),
     ("threshold", .nat h.limits.threshold), ("deferred", .bool (h.mode = .deferred))]

namespace Play

/-- Runs an operation of the heap at hand that may collect. -/
def allocating {α : Type} (host : Host World) (act : (ClassId → Bool) → HeapM α) : Play α :=
  acting (Action.allocating host act)

/-- Runs an operation of the heap at hand that may fail but not collect. -/
def changing {α : Type} (act : HeapM α) : Play α := acting (Action.editing act)

/-- The place of a persistent root. -/
def rootAt (name : String) : Play RootPlace := do need (← get).registers.roots[name]?

/-- Keeps the place of a persistent root. -/
def storeRoot (as : String) (r : RootPlace) : Play Unit :=
  editRegisters fun t => { t with roots := t.roots.insert as r }

end Play

open Play

/-- Does a heap step. -/
def playHeap (host : Host World) : HeapStep → Play Result
  | .stats => return .report (← viewing statsReport)
  | .setMode mode => do
    editing fun h => ((), { h with mode := mode })
    return .nothing
  | .collect => do
    acting (Action.collect host)
    return .nothing
  | .alloc => return .object (← allocating host Heap.allocPlain)
  | .isValid o => do
    let o ← object o
    return .bool (← viewing fun h => h.isValid o)
  | .objectPrototype => return .object (← viewing Heap.objectPrototype)
  | .functionPrototype => return .object (← viewing Heap.functionPrototype)
  | .getPrototype o => do
    let o ← object o
    return .object? (← reading fun h => h.prototype o)
  | .setPrototype o p => do
    let o ← object o
    let p ← object? p
    changing (Heap.setPrototype o p)
    return .nothing
  | .className o => do
    let o ← object o
    let c ← reading fun h => h.classOf o
    return .report ((c.map fun c => Report.text c.name).getD .null)
  | .ownHas o k => do
    let o ← object o
    return .bool (← reading fun h => h.hasOwn o k)
  | .ownGet o k => do
    let o ← object o
    return .valueOr "absent" (← reading fun h => h.getOwn o k)
  | .ownAttributes o k => do
    let o ← object o
    let a ← reading fun h => h.ownAttributes o k
    return .report ((a.map fun a => Report.nat a.bits).getD .null)
  | .ownDefine o k v a => do
    let o ← object o
    let v ← value v
    allocating host fun held => Heap.defineOwn held o ⟨k, v, a⟩
    return .nothing
  | .ownPut o k v a => do
    let o ← object o
    let v ← value v
    return .bool (← allocating host fun held => Heap.putOwn held o ⟨k, v, a⟩)
  | .ownDelete o k => do
    let o ← object o
    return .bool (← changing (Heap.deleteOwn o k))
  | .ownNames o => do
    let o ← object o
    return .report (namesReport (← reading fun h => h.ownNames o))
  | .rootAdd as v => do
    let v ← value v
    let r ← editing (Heap.addRoot v)
    storeRoot as r
    return .report (.nat r.index)
  | .rootGet r => do
    let r ← rootAt r
    return .valueOr "gone" (← viewing fun h => h.root? r)
  | .rootSet r v => do
    let r ← rootAt r
    let v ← value v
    editing fun h => ((), h.setRoot r v)
    return .nothing
  | .rootRemove r => do
    let r ← rootAt r
    editing fun h => ((), h.removeRoot r)
    return .nothing
  | .pin v => do
    changing (Heap.pin (← value v))
    return .nothing
  | .unpin v => do
    let v ← value v
    editing fun h => ((), h.unpin v)
    return .nothing
  | .pinCount o => do
    let o ← object o
    return .report (.nat (← viewing fun h => h.pinCount o))
  | .edgeAdd owner target => do
    let owner ← node owner
    let target ← node target
    changing (Heap.addEdge owner target)
    return .nothing
  | .edgeRemove owner target => do
    let owner ← node owner
    let target ← node target
    return .bool (← editing (Heap.removeEdge owner target))
  | .edgeCount owner target => do
    let owner ← node owner
    let target ← node target
    return .report (.nat (← viewing fun h => h.edgeCount owner target))
  | .hostRootAdd key => do
    editing fun h => ((), h.addHostRoot key)
    return .nothing
  | .hostRootRemove key => return .bool (← editing (Heap.removeHostRoot key))
  | .weakUpgrade w => do
    let o ← need (← get).registers.weak[w]?
    return .valueOr "gone" ((← viewing fun h => h.upgrade? o).map .object)

end HostObjects.Script
