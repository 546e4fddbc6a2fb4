import HostObjects.Proofs.View.Enumerate
import HostObjects.View.Assign

/-!
# Objects up to the identity of functions

What accesses to an object show of the objects on its prototype chain: their classes, and
the names, values and attributes of their properties, where a function counts as what it
runs (`Content`).  Which function object it is depends on when it was allocated; what it runs
does not.

On such faces the accesses are plain functions (`Access.on`), as long as no callback and no
static value takes part.  The functions follow the program in what they
look at and in which order, so reading a static function that an instance has not stored yet
adds a property to its face (`Face.read`).
-/

namespace HostObjects

/-! ### Contents -/

/-- A value up to the identity of functions. -/
inductive Content where
  /-- A function object that runs the host function. -/
  | function (name : Text) (call : HostFunction)
  | value (v : Value)
deriving DecidableEq

/-- A property up to the identity of functions. -/
structure Shown where
  name : Text
  content : Content
  attributes : Attributes
deriving DecidableEq

/-- The property of a static function that is stored on first use. -/
def StaticFunction.shown (entry : StaticFunction) (name : Text) : Shown :=
  ⟨name, .function name entry.call, entry.attributes⟩

/-- An object up to the identity of functions, as far as accesses to it show it. -/
@[ext]
structure Face where
  ofClass : Option Class
  properties : List Shown

namespace Face

variable (f : Face) (name : Text)

/-- The own property of the name. -/
def own? : Option Shown := f.properties.find? fun p => p.name == name

/-- The static function of the name that is found on the instance. -/
def function? : Option StaticFunction :=
  f.ofClass.bind fun c => c.onInstance.findSome? fun d => d.function? name

/-- Whether the property exists at the object. -/
def has : Bool := (f.function? name).isSome || (f.own? name).isSome

/-- The object with one more property. -/
def add (p : Shown) : Face := { f with properties := f.properties ++ [p] }

/-- What the object answers to a read, and how it looks after it. -/
def read : Option (Content × Face) :=
  match f.own? name with
  | some p => some (p.content, f)
  | none =>
    (f.function? name).map fun entry => (.function name entry.call, f.add (entry.shown name))

/-- Whether the class of the object ends a write without effect. -/
def refusesWrite : Bool := f.ofClass.any fun c => View.hasReadOnlyFunction c name

/-- The object with a property in the place of the first one of its name. -/
def replace (p : Shown) : Face :=
  { f with properties := f.properties.replaceF fun q => if q.name = p.name then some p else none }

/-- The object after a write that its class does not end. -/
def write (p : Shown) : Face :=
  match f.own? p.name with
  | some old =>
    if old.attributes.readOnly then f
    else f.replace { p with attributes := Heap.writtenAttributes old.attributes p.attributes }
  | none => f.add p

/-- Whether the class of the object refuses a deletion. -/
def refusesDelete : Bool := f.ofClass.any fun c => View.hasPermanentEntry c name

/-- The object without the first property of the name. -/
def remove : Face := { f with properties := f.properties.eraseP fun q => q.name == name }

/-- The answer of a deletion, and how the object looks after it. -/
def delete : Bool × Face :=
  if f.refusesDelete name || (f.own? name).any (fun p => p.attributes.permanent) then (false, f)
  else (true, f.remove name)

/-- The names that the class of the object lists. -/
def declared : List Text := (f.ofClass.map Class.declaredNames).getD []

/-- The names of the visible properties. -/
def visible : List Text := (f.properties.filter fun p => !p.attributes.hidden).map Shown.name

/-- The names listed at the object. -/
def listed : List Text := f.declared ++ f.visible

theorem ofClass_write (p : Shown) : (f.write p).ofClass = f.ofClass := by
  unfold write
  split
  · split <;> rfl
  · rfl

theorem ofClass_delete : (f.delete name).2.ofClass = f.ofClass := by
  unfold delete
  split <;> rfl

variable {f name} in
theorem ofClass_of_read {f' : Face} {content : Content}
    (read : f.read name = some (content, f')) : f'.ofClass = f.ofClass := by
  unfold Face.read at read
  split at read
  · cases read
    rfl
  · obtain ⟨entry, -, same⟩ := Option.map_eq_some_iff.mp read
    cases same
    rfl

end Face

/-! ### Accesses along a chain -/

/-- An access to an object. -/
inductive Access (V : Type) where
  | has (name : Text)
  | get (name : Text)
  | set (name : Text) (v : V) (attributes : Attributes)
  | delete (name : Text)
  | names

/-- What an access answers. -/
inductive Reply (V : Type) where
  | truth (b : Bool)
  | value (v : V)
  | done
  | names (ns : List Text)
deriving DecidableEq

/-- The access with another value to write. -/
def Access.map {V V' : Type} (g : V → V') : Access V → Access V'
  | has name => .has name
  | get name => .get name
  | set name v attributes => .set name (g v) attributes
  | delete name => .delete name
  | names => .names

/-- The answer with another value. -/
def Reply.map {V V' : Type} (g : V → V') : Reply V → Reply V'
  | truth b => .truth b
  | value v => .value (g v)
  | done => .done
  | names ns => .names ns

/-- Whether the property exists on a chain, of which a number of objects is visited. -/
def hasOn (name : Text) (F : Handle → Face) : Nat → List Handle → Except Fault Bool
  | _, [] => .ok false
  | 0, _ :: _ => .error .prototypeChainTooDeep
  | n + 1, p :: ps => if (F p).has name then .ok true else hasOn name F n ps

/-- What a chain answers to a read, and the faces after it. -/
def readOn (name : Text) (F : Handle → Face) :
    Nat → List Handle → Except Fault (Option Content) × (Handle → Face)
  | _, [] => (.ok none, F)
  | 0, _ :: _ => (.error .prototypeChainTooDeep, F)
  | n + 1, p :: ps =>
    match (F p).read name with
    | some (content, f) => (.ok (some content), Function.update F p f)
    | none => readOn name F n ps

/-- The names listed along a chain. -/
def listedOn (F : Handle → Face) : Nat → List Handle → Except Fault (List Text)
  | _, [] => .ok []
  | 0, _ :: _ => .error .prototypeChainTooDeep
  | n + 1, p :: ps => (listedOn F n ps).map fun names => (F p).listed ++ names

/-- What an object answers to a write that its class does not end, and the faces after it.
What is to be stored is a content, or the fault that storing it would be. -/
def storeOn (o : Handle) (F : Handle → Face) (name : Text) (attributes : Attributes) :
    Except Fault Content → Except Fault (Reply Content) × (Handle → Face)
  | .error e => (.error e, F)
  | .ok content => (.ok .done, Function.update F o ((F o).write ⟨name, content, attributes⟩))

namespace Access

/-- What an access to the first object of a chain answers, and the faces after it. -/
def on (o : Handle) (chain : List Handle) (F : Handle → Face) :
    Access (Except Fault Content) → Except Fault (Reply Content) × (Handle → Face)
  | has name => ((hasOn name F maxPrototypeChain chain).map .truth, F)
  | get name =>
    ((readOn name F maxPrototypeChain chain).1.map fun c => .value (c.getD (.value .undefined)),
      (readOn name F maxPrototypeChain chain).2)
  | set name content attributes =>
    if (F o).refusesWrite name then (.ok .done, F) else storeOn o F name attributes content
  | delete name =>
    (.ok (.truth ((F o).delete name).1), Function.update F o ((F o).delete name).2)
  | names =>
    ((listedOn F maxPrototypeChain chain).map fun ns => .names (View.firstOccurrences ns), F)

/-- Accesses change no class. -/
theorem ofClass_on (o : Handle) (chain : List Handle) (F : Handle → Face)
    (a : Access (Except Fault Content)) (p : Handle) :
    ((a.on o chain F).2 p).ofClass = (F p).ofClass := by
  have update : ∀ {q : Handle} {f : Face}, f.ofClass = (F q).ofClass →
      (Function.update F q f p).ofClass = (F p).ofClass := by
    intro q f same
    by_cases here : p = q
    · rw [here, Function.update_self, same]
    · rw [Function.update_of_ne here]
  have read : ∀ name budget, ((readOn name F budget chain).2 p).ofClass = (F p).ofClass := by
    intro name budget
    induction chain generalizing budget with
    | nil => cases budget <;> rfl
    | cons q qs ih =>
        cases budget with
        | zero => rfl
        | succ budget =>
            unfold readOn
            cases found : (F q).read name with
            | none => exact ih budget
            | some found' => exact update (Face.ofClass_of_read found)
  cases a with
  | has | names => rfl
  | get name => exact read name _
  | set name content attributes =>
      simp only [on]
      cases (F o).refusesWrite name with
      | true => rfl
      | false =>
          cases content with
          | error e => rfl
          | ok c => exact update (Face.ofClass_write _ _)
  | delete name => exact update (Face.ofClass_delete _ _)

/-- The answers of a sequence of accesses. -/
def allOn (o : Handle) (chain : List Handle) :
    List (Access (Except Fault Content)) → (Handle → Face) → List (Except Fault (Reply Content))
  | [], _ => []
  | a :: as, F => (a.on o chain F).1 :: allOn o chain as (a.on o chain F).2

end Access

end HostObjects
