import HostObjects.Group.Basic
import HostObjects.Text.Quoted

/-!
# Diagnostic texts

Texts that show the parts of a value, a class, a context and other things by name, for logs. Parts
whose number means nothing outside the process are shown by a label or a blank.
-/

namespace HostObjects.Diagnostic

/-! ### Shapes -/

/-- Named parts within braces. -/
def parts (name : String) (fields : List (String × String)) : String :=
  name ++ " \x7b " ++ String.intercalate ", " (fields.map fun f => f.1 ++ ": " ++ f.2) ++ " \x7d"

/-- One part within parentheses. -/
def wrapped (name part : String) : String := name ++ "(" ++ part ++ ")"

/-- A part that may be missing. -/
def optional : Option String → String
  | none => "None"
  | some s => wrapped "Some" s

/-- The characters of a text within quotes. -/
def quotedText (t : Text) : String := Quoted.quote t.chars

/-! ### Attributes and handles -/

/-- The names of the attributes that are set, within braces. -/
def attributes (a : Attributes) : String :=
  let names :=
    (if a.readOnly then ["READ_ONLY"] else []) ++ (if a.hidden then ["DONT_ENUM"] else []) ++
      (if a.permanent then ["DONT_DELETE"] else [])
  "\x7b" ++ String.intercalate ", " (names.map fun n => Quoted.quote n.toList) ++ "\x7d"

/-- The slot and generation of a handle. -/
def place (o : Handle) : String :=
  parts "HeapId" [("index", toString o.index), ("generation", toString o.generation.toNat)]

/-- A heap by its label. -/
def heap (label : HeapId → String) (t : HeapId) : String := "HeapTag[" ++ label t ++ "]"

/-- A handle. -/
def handle (label : HeapId → String) (o : Handle) : String :=
  parts "GcObject" [("id", place o), ("heap", heap label o.heap)]

/-! ### Values and what holds them -/

/-- A value. -/
def value (label : HeapId → String) : Value → String
  | .undefined => "Undefined"
  | .null => "Null"
  | .bool b => wrapped "Bool" (if b then "true" else "false")
  | .number x => wrapped "Number" (String.ofList (Numeral.ofDouble .diagnostic x))
  | .text t => wrapped "String" (quotedText t)
  | .object o => wrapped "Object" (handle label o)

/-- A node of an external edge. -/
def node (label : HeapId → String) : Node → String
  | .object o => wrapped "Object" (handle label o)
  | .host k => wrapped "Host" (wrapped "HostKey" (toString k.toNat))

/-- A managed value. -/
def managed (label : HeapId → String) (m : ManagedValue) : String :=
  let held :=
    match m.value with
    | .object o => ("object", wrapped "WeakGcObject" (handle label o))
    | v => ("value", value label v)
  parts "ManagedValue" [held, ("owner", optional (m.owner.map (node label)))]

/-- A persistent root. -/
def persistentRoot (r : OwnedRoot) : String :=
  wrapped "PersistentRoot" (wrapped "RootId" (toString r.root.index))

/-! ### Classes, groups and contexts -/

/-- A class. -/
def ofClass (c : Class) : String :=
  parts "Class"
    [("id", "ClassId[_]"), ("name", quotedText c.name),
     ("parent", optional (c.parent?.map fun p => quotedText p.name))]

/-- A group by the identity of its heap. -/
def group {τ : Type} (label : HeapId → String) (id : HeapId) (g : Group τ) : String :=
  parts "ContextGroup"
    [("heap", heap label id), ("bound_thread", optional (g.thread.map fun _ => "ThreadId[_]"))]

/-- A context with its name, its global object and the text of its group. -/
def context (label : HeapId → String) (name : Option String) (global : Handle)
    (group : String) : String :=
  parts "GlobalContext"
    [("name", optional (name.map fun n => Quoted.quote n.toList)), ("global", handle label global),
     ("group", group)]

end HostObjects.Diagnostic
