import HostObjects.Diagnostic
import HostObjects.Script.ViewPlay
import HostObjects.Text.Hash

/-!
# General steps

What the steps do that apply in every environment: reports on values, texts and classes, and the
life of classes, groups, contexts and heaps.
-/

namespace HostObjects.Script

open Play

/-! ### Reports -/

/-- A report, or null if there is none. -/
def orNull : Option Report → Report
  | some r => r
  | none => .null

/-- The type of a value. -/
def valueReport (v : Value) : Report :=
  .parts
    [("type", .string (kindName v.kind)),
     ("object", orNull (v.object?.map fun o => .value (.object o))),
     ("undefined", .bool v.isUndefined)]

/-- A 64-bit number as sixteen hexadecimal digits. -/
def hex64 (n : UInt64) : String :=
  let ds := Quoted.hex n.toNat
  String.ofList (List.replicate (16 - ds.length) '0' ++ ds)

/-- The views of a text. -/
def textReport (t : Text) : Report :=
  .parts
    [("len", .nat t.length), ("empty", .bool t.isEmpty),
     ("units", .list (t.units.map fun u => .nat u.toNat)), ("utf8", .string t.toString),
     ("display", .string t.toString), ("index", orNull (t.index?.map fun n => .nat n.toNat)),
     ("hash", .string (hex64 t.stableHash))]

/-- An order as a number. -/
def orderReport : Ordering → Report
  | .lt => .int (-1)
  | .eq => .int 0
  | .gt => .int 1

/-- The comparison of two texts. -/
def compareReport (a b : Text) (other : Option String) : Report :=
  .parts
    [("eq", .bool (a = b)), ("ord", orderReport (compare a b)),
     ("eq_str", orNull (other.map fun s => .bool (a.equalsString s)))]

/-- The tests on attributes. -/
def attributesReport (a b : Attributes) : Report :=
  .parts
    [("bits", .nat a.bits), ("read_only", .bool a.readOnly), ("enumerable", .bool !a.hidden),
     ("deletable", .bool !a.permanent), ("or", .nat (a.union b).bits),
     ("or_assign", .nat (a.union b).bits), ("contains", .bool (a.contains b)),
     ("debug", .string (Diagnostic.attributes a))]

/-- The options of a group. -/
def optionsReport (o : GroupOptions) : Report :=
  .parts
    [("heap_limits",
        .parts [("max_bytes", .nat o.limits.maxBytes), ("gc_threshold", .nat o.limits.threshold)]),
     ("collection", .string (if o.mode = .deferred then "deferred" else "synchronous")),
     ("bind_to_current_thread", .bool o.bound)]

/-- The constants of the library. -/
def constantsReport : Report :=
  .parts
    [("version", .nat Class.formatVersion), ("class_chain", .nat Class.maxChain),
     ("prototype_chain", .nat maxPrototypeChain), ("no_auto", .nat 2),
     ("attrs", .list
        [.nat Attributes.none.bits, .nat (⟨true, false, false⟩ : Attributes).bits,
         .nat (⟨false, true, false⟩ : Attributes).bits,
         .nat (⟨false, false, true⟩ : Attributes).bits])]

/-- The contents of a list of names. -/
def arrayReport (w : World) (a : NameArray) (i : Nat) (k : Text) : Report :=
  let refs := (w.registers.arrays.toList.filter fun b => b.2.id = a.id).length
  let entry := orNull (a.names[i]?.map .text)
  .parts
    [("len", .nat a.names.length), ("empty", .bool a.names.isEmpty), ("get", entry),
     ("index", entry), ("contains", .bool (a.names.contains k)), ("all", namesReport a.names),
     ("refs", .nat refs)]

/-- The operations in the order of their names, with the names. -/
def operationNames : List (String × Operation) :=
  [("call", .call), ("construct", .construct), ("convert", .convert), ("delete", .delete),
   ("finalize", .finalize), ("get", .get), ("has", .has), ("has_instance", .hasInstance),
   ("initialize", .setUp), ("names", .names), ("set", .set)]

/-- The names and attributes of static entries. -/
def entriesReport (es : List (Text × Attributes)) : Report :=
  .list (es.map fun e => .list [.text e.1, .nat e.2.bits])

/-- What a class declares. -/
def classReport (c : Class) : Report :=
  let resolved (op : Operation) : Report :=
    .list [.bool (c.own.defines op), orNull ((c.resolve? op).map fun d => .text d.name)]
  .parts
    [("name", .text c.name), ("version", .nat c.own.version),
     ("attributes", .nat c.own.attributeBits), ("auto", .bool c.own.automatic),
     ("parent", orNull (c.parent?.map fun p => .text p.name)),
     ("chain", namesReport (c.chain.map Descriptor.name)),
     ("values", entriesReport (c.own.values.map fun v => (v.name, v.attributes))),
     ("functions", entriesReport (c.own.functions.map fun f => (f.name, f.attributes))),
     ("resolve", .parts (operationNames.map fun o => (o.1, resolved o.2)))]

/-- The static entries of a name. -/
def lookupReport (c : Class) (k : Text) : Report :=
  .parts
    [("value", orNull ((c.own.value? k).map fun v => .nat v.attributes.bits)),
     ("function", orNull ((c.own.function? k).map fun f => .nat f.attributes.bits))]

/-- The diagnostic text of what a step names. -/
def diagnose : Subject → Play String
  | .ofClass name => return Diagnostic.ofClass (← classAt name)
  | .group name => do
    let t ← groupAt name
    return Diagnostic.group (← get).label t (← groupOf t)
  | .context name => do
    let c ← contextOf (← contextIdAt name)
    let g ← groupOf c.group
    let label := (← get).label
    return Diagnostic.context label c.name c.global (Diagnostic.group label c.group g)
  | .managed name => do
    return Diagnostic.managed (← get).label (← need (← get).registers.managed[name]?)
  | .root name => do
    return Diagnostic.persistentRoot (← need (← get).registers.owned[name]?)
  | .value v => do return Diagnostic.value (← get).label (← value v)

/-! ### Classes -/

/-- Makes a host function of rules. -/
def defineFunction (label : String) (role : Role) (rules : List Rule)
    (acts : List FinalizerAct) : Play HostFunction := do
  let f : HostFunction := ⟨← fresh⟩
  modify fun w => { w with functions := w.functions.insert f ⟨label, role, rules, acts⟩ }
  return f

/-- Makes a host function if there are rules for it. -/
def defineFunction? (label : String) (role : Role) : Option (List Rule) →
    Play (Option HostFunction)
  | some rules => return some (← defineFunction label role rules [])
  | none => return none

/-- Makes the host functions of the callbacks. -/
def defineCallbacks (label : String) (spec : ClassSpec) : Play Callbacks := do
  let given ← spec.callbacks.mapM fun c => do
    return (c.1, ← defineFunction label (.callback c.1) c.2 [])
  let finalizer ← match spec.finalizer with
    | some acts => some <$> defineFunction label (.callback .finalize) [] acts
    | none => pure none
  return fun op => if op = .finalize then finalizer else given.lookup op

/-- Makes a class. -/
def defineClass (as : String) (spec : ClassSpec) : Play Unit := do
  let known := (← get).registers.classes
  let parent := spec.parent.bind fun p => known[p]?
  let values ← spec.values.mapM fun v => do
    return (⟨.ofString v.name, v.attributes, ← defineFunction? as .getter v.getter,
      ← defineFunction? as .setter v.setter⟩ : StaticValue)
  let functions ← spec.functions.mapM fun f => do
    let call ← defineFunction (as ++ "." ++ f.name) .function f.call []
    return (⟨.ofString f.name, f.attributes, call⟩ : StaticFunction)
  let callbacks ← defineCallbacks as spec
  let id : ClassId := ⟨← fresh⟩
  let own : Descriptor :=
    ⟨id, spec.version, .ofString spec.name, spec.automatic, values, functions, callbacks⟩
  match Class.define own parent with
  | .ok c => storeClass as c
  | .error e => fail e

/-! ### Groups and contexts -/

/-- Makes a group. -/
def makeGroup (label : String) (options : GroupOptions) : Play HeapId := do
  let t : HeapId := ⟨← fresh⟩
  modify fun w =>
    { w with
      groups := w.groups.insert t (Group.new t options w.thread)
      labels := w.labels.insert t label }
  return t

/-- Makes the global object of a context and roots it. -/
def makeGlobal (host : Host World) (c : Option Class) : Play (Handle × RootPlace) := do
  let o ← acting <|
    match c with
    | some c => View.makeInstance host c none
    | none => Action.allocating host Heap.allocPlain
  let r ← editing (Heap.addRoot (.object o))
  return (o, r)

/-- Makes a context in a group and reports its global object. If the class of the global object
fails to set it up, the context is dropped again. -/
def makeContext (host : Host World) (as : String) (t : HeapId) (c : Option Class) :
    Play Result := do
  let holdingClass {α : Type} (act : Action World α) : Action World α :=
    Action.holding c.toList act
  let (global, root) ← withGroup t (makeGlobal host c)
  let id : ContextId := ⟨← fresh⟩
  modify fun w => { w with contexts := w.contexts.insert id ⟨t, global, root, none⟩ }
  World.holdingContext id do
    if let some c := c then
      withView id (acting (holdingClass (View.setUp host global c)))
    storeContext as id
  return .report (.value (.object global))

/-- The state of a group. -/
def groupReport (w : World) (t : HeapId) (g : Group Task) : Report :=
  .parts
    [("refs", .nat (w.groupRefs t)), ("tasks", .nat g.tasks.length),
     ("bound", .bool g.thread.isSome), ("options", optionsReport g.options)]

/-- Does a general step. -/
def playGeneral (host : Host World) : General → Play Result
  | .given v => return .value (← value v)
  | .valueInfo v => return .report (valueReport (← value v))
  | .compareValues a b => do
    let a ← value a
    let b ← value b
    return .report (.parts [("same", .bool (a.same b)), ("eq", .bool (a.equal b))])
  | .textInfo t => return .report (textReport t)
  | .quoted t => return .report (.string (Diagnostic.quotedText t))
  | .indexText i => return .report (.text (Text.ofNat i.toNat))
  | .compareTexts a b other => return .report (compareReport a b other)
  | .attributes a b => return .report (attributesReport a b)
  | .arrayNew as names => do
    let names := View.firstOccurrences names
    storeArray as names
    return .report (namesReport names)
  | .arrayClone a as => do
    let a ← need (← get).registers.arrays[a]?
    editRegisters fun r => { r with arrays := r.arrays.insert as a }
    return .nothing
  | .arrayDrop a => do
    let known := (← get).registers.arrays.contains a
    editRegisters fun r => { r with arrays := r.arrays.erase a }
    return .bool known
  | .arrayInfo a i k => do
    let a ← need (← get).registers.arrays[a]?
    return .report (arrayReport (← get) a i k)
  | .options o =>
    match o with
    | some o =>
      return .report (.parts [("options", optionsReport o), ("default", .bool (o = {}))])
    | none => refuse .badOptions
  | .constants => return .report constantsReport
  | .handleInfo o => do
    let o ← object o
    return .report <| .parts
      [("index", .nat o.index), ("generation", .nat o.generation.toNat),
       ("debug", .string (Diagnostic.place o))]
  | .weakNew o as => do
    let o ← object o
    editRegisters fun r => { r with weak := r.weak.insert as o }
    return .report (.list [.nat o.index, .nat o.generation.toNat])
  | .faultInfo f => do
    let f := faultOf (← get) f
    return .report (.fault f [("is_throw", .bool f.isThrown)])
  | .diagnostic s => return .report (.string (← diagnose s))
  | .classDrop c => do
    let known := (← get).registers.classes.contains c
    editRegisters fun r => { r with classes := r.classes.erase c }
    return .bool known
  | .classClone c as => do
    storeClass as (← classAt c)
    return .nothing
  | .classRefs c => do
    let c ← classAt c
    return .report (.nat ((← get).classRefs c.id))
  | .classInfo c => return .report (classReport (← classAt c))
  | .classLookup c k => return .report (lookupReport (← classAt c) k)
  | .classRelation a b => do
    let a ← classAt a
    let b ← classAt b
    let same := Report.bool (a.id = b.id)
    return .report <| .parts
      [("inherits", .bool (a.inheritsFrom b.id)), ("ptr_eq", same), ("id_eq", same)]
  | .groupNew as options =>
    match options with
    | some options => do
      storeGroup as (← makeGroup as options)
      return .nothing
    | none => refuse .badOptions
  | .groupClone g as => do
    storeGroup as (← groupAt g)
    return .nothing
  | .groupDrop g => return .bool (← dropGroup g)
  | .groupInfo g => do
    let t ← groupAt g
    let g ← groupOf t
    return .report (groupReport (← get) t g)
  | .groupEqual a b => do
    let a ← groupAt a
    let b ← groupAt b
    return .bool (a = b)
  | .groupCollect g => do
    withGroup (← groupAt g) (acting (Action.collect host))
    return .nothing
  | .hasPendingWork g => do
    let t ← groupAt g
    needUnlocked t
    if !(← groupOf t).tasks.isEmpty then return .bool true
    return .bool (← withGroup t (viewing Heap.scheduled))
  | .contextNew as group c => do
    let c ← class? c
    match group with
    | some g => do
      let t ← groupAt g
      needUnlocked t
      World.holdingGroup t (makeContext host as t c)
    | none => do
      let t ← makeGroup as {}
      World.holdingGroup t (makeContext host as t c)
  | .contextClone c as => do
    storeContext as (← contextIdAt c)
    return .nothing
  | .contextDrop c => return .bool (← dropContext c)
  | .contextGroup c as => do
    storeGroup as (← contextOf (← contextIdAt c)).group
    return .nothing
  | .contextInfo c => do
    let id ← contextIdAt c
    let c ← contextOf id
    return .report <| .parts
      [("name", orNull (c.name.map .string)), ("refs", .nat ((← get).contextRefs id)),
       ("global", .value (.object c.global))]
  | .contextName c name => do
    let id ← contextIdAt c
    let c ← contextOf id
    modify fun w => { w with contexts := w.contexts.insert id { c with name := name } }
    return .nothing
  | .contextEqual a b => do
    let a ← contextIdAt a
    let b ← contextIdAt b
    let ca ← contextOf a
    let cb ← contextOf b
    return .report <| .parts
      [("context", .bool (a = b)), ("group", .bool (ca.group = cb.group))]
  | .contextCollect c => do
    withView (← contextIdAt c) (acting (Action.collect host))
    return .nothing
  | .tryEnter c => do
    let c ← contextOf (← contextIdAt c)
    if (← groupOf c.group).isLocked then return .bool false
    withGroup c.group (return ())
    return .bool true
  | .heapNew as limits mode => do
    let t : HeapId := ⟨← fresh⟩
    modify fun w => { w with labels := w.labels.insert t as }
    editRegisters fun r => { r with heaps := r.heaps.insert as (Heap.new t limits mode) }
    return .nothing
  | .heapDrop h => return .bool (← dropHeap h)
  | .rootDrop p => return .bool (← dropOwned p)
  | .managedDrop m => return .bool (← dropManaged m)
  | .managedOwner m => do
    let m ← need (← get).registers.managed[m]?
    return .report (orNull (m.owner.map .node))
  | .unknown => refuse .badStep

end HostObjects.Script
