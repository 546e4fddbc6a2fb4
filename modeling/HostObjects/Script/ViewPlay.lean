import HostObjects.Script.HeapPlay
import HostObjects.View.Enumerate

/-!
# View steps

What the steps on the view at hand do.
-/

namespace HostObjects.Script

open Play

/-- An action whose thrown value may be swallowed, in favour of a default. -/
def swallowing {α : Type} (swallow : Bool) (fallback : α) (act : Action World α) :
    Action World α := fun s =>
  let (r, s) := act s
  (if swallow then Fault.swallow fallback r else r, s)

/-- A list of names kept in a register. -/
def storeArray (as : String) (names : List Text) : Play Unit := do
  let id ← fresh
  editRegisters fun r => { r with arrays := r.arrays.insert as ⟨id, names⟩ }

/-- What an object is. -/
def objectReport (h : Heap) (o : Handle) : Except Fault Report := do
  let obj ← h.object o
  let name ← View.className h o
  let answers (op : Operation) : Bool := obj.ofClass.any fun c => (c.callback? op).isSome
  let isFunction := match obj.behaviour with
    | .function _ _ => true
    | _ => false
  let isConstructor := match obj.behaviour with
    | .constructor _ _ => true
    | _ => false
  let functionName := match obj.behaviour with
    | .function name _ => Report.text name
    | _ => .null
  return .parts
    [("class", (obj.ofClass.map fun c => Report.text c.name).getD .null),
     ("class_name", .text name), ("is_function", .bool (isFunction || answers .call)),
     ("is_constructor", .bool (isConstructor || answers .construct)),
     ("function_name", functionName)]

/-- What private data shows when it is asked as a type. -/
def privateAs (type : PrivateType) : Option PrivateData → Report
  | some (.word n) => if type = .word then .nat n.toNat else .null
  | some (.string s) => if type = .string then .string s else .null
  | _ => .null

/-- Does a view step. -/
def playView (host : Host World) (swallow : Bool) : ViewStep → Play Result
  | .makeObject c data => do
    let c ← class? c
    let data ← privateData data
    return .object (← acting (Action.holding c.toList (View.makeObject host c data)))
  | .has o k => do
    let o ← object o
    return .bool (← acting (swallowing swallow false (View.hasProperty host o k)))
  | .get o k => do
    let o ← object o
    return .value (← acting (swallowing swallow .undefined (View.getProperty host o k)))
  | .set o k v a => do
    let o ← object o
    let v ← value v
    acting (swallowing swallow () (View.setProperty host o k v a))
    return .nothing
  | .delete o k => do
    let o ← object o
    return .bool (← acting (swallowing swallow false (View.deleteProperty host o k)))
  | .names as o => do
    let o ← object o
    let names ← acting (View.propertyNames host o)
    if let some as := as then storeArray as names
    return .report (namesReport names)
  | .getIndex o i => do
    let o ← object o
    return .value (← acting (swallowing swallow .undefined (View.getIndex host o i)))
  | .setIndex o i v => do
    let o ← object o
    let v ← value v
    acting (swallowing swallow () (View.setIndex host o i v))
    return .nothing
  | .hasKey o k => do
    let o ← object o
    let k ← value k
    return .bool (← acting (swallowing swallow false (View.hasKeyed host o k)))
  | .getKey o k => do
    let o ← object o
    let k ← value k
    return .value (← acting (swallowing swallow .undefined (View.getKeyed host o k)))
  | .setKey o k v a => do
    let o ← object o
    let k ← value k
    let v ← value v
    acting (swallowing swallow () (View.setKeyed host o k v a))
    return .nothing
  | .deleteKey o k => do
    let o ← object o
    let k ← value k
    return .bool (← acting (swallowing swallow false (View.deleteKeyed host o k)))
  | .call o this args => do
    let o ← object o
    let this ← value this
    let args ← args.mapM value
    return .value (← acting (swallowing swallow .undefined (View.call host o this args)))
  | .construct o args => do
    let o ← object o
    let args ← args.mapM value
    return .object (← acting (View.construct host o args))
  | .instanceOf o v => do
    let o ← object o
    let v ← value v
    return .bool (← acting (swallowing swallow false (View.hasInstance host o v)))
  | .convert o hint => do
    let o ← object o
    return .value (← acting (swallowing swallow .undefined (View.convert host o hint)))
  | .toBool v => return .bool (← value v).toBool
  | .toNumber v => do
    let v ← value v
    return .value (.number (← acting (View.toNumber host v)))
  | .toText v => do
    let v ← value v
    return .value (.text (← acting (View.toText host v)))
  | .getPrototype o => do
    let o ← object o
    return .object? (← reading fun h => h.prototype o)
  | .setPrototype o p => do
    let o ← object o
    let p ← object? p
    acting (View.setPrototype o p)
    return .nothing
  | .classPrototype c => do
    let c ← classAt c
    return .object? (← acting (Action.holding [c] (View.classPrototype host c)))
  | .objectInfo o => do
    let o ← object o
    return .report (← reading fun h => objectReport h o)
  | .isOfClass o c => do
    let o ← object o
    let c ← classAt c
    let own ← reading fun h => h.classOf o
    return .bool (own.any fun d => d.inheritsFrom c.id)
  | .privateGet o type => do
    let o ← object o
    return .report (privateAs type (← reading fun h => h.privateOf o))
  | .privateAdd o n => do
    let o ← object o
    match ← reading fun h => h.privateOf o with
    | some (.word m) =>
      changing (Heap.setPrivate o (some (.word (m + n))))
      return .report (.nat (m + n).toNat)
    | _ => return .nothing
  | .privateSet o data => do
    let o ← object o
    let data ← privateData data
    return .bool (← acting (View.replacePrivate host o data))
  | .privateTake o => do
    let o ← object o
    let data ← reading fun h => h.privateOf o
    changing (Heap.setPrivate o none)
    acting (Action.discarding host data)
    return .report (describe data)
  | .global => return .object (← viewContext).2.global
  | .viewInfo => do
    let (_, c) ← viewContext
    let height ← viewing fun h => h.stack.size
    return .report <| .parts
      [("stack_roots", .nat height), ("context_name", (c.name.map Report.string).getD .null)]
  | .sameContext c => do
    let other ← contextIdAt c
    let (id, here) ← viewContext
    let there ← contextOf other
    return .report <| .parts
      [("context", .bool (id = other)), ("group", .bool (here.group = there.group))]
  | .pushRoot v => do
    let v ← value v
    acting (Action.push v)
    return .value v
  | .rootNew as v => do
    let v ← value v
    let p ← changing (Heap.newOwnedRoot v)
    storeRoot as p.root
    let _ ← dropOwned as
    editRegisters fun r => { r with owned := r.owned.insert as p }
    return .report (.nat p.root.index)
  | .rootGet p => do
    let p ← need (← get).registers.owned[p]?
    return .valueOr "gone" (← viewing fun h => h.root? p.root)
  | .rootSet p v => do
    let p ← need (← get).registers.owned[p]?
    let v ← value v
    reading fun h => h.checkStorable v
    editing fun h => ((), h.setRoot p.root v)
    return .nothing
  | .managedNew as v owner => do
    let v ← value v
    let owner ← match owner with
      | some n => some <$> node n
      | none => pure none
    let m ← changing (Heap.newManaged v owner)
    let _ ← dropManaged as
    editRegisters fun r => { r with managed := r.managed.insert as m }
    return .nothing
  | .managedGet m => do
    let m ← need (← get).registers.managed[m]?
    return .valueOr "gone" (← acting (Action.managedValue m))

end HostObjects.Script
