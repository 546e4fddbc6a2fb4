import HostObjects.Proofs.ClassChain
import HostObjects.Proofs.View.ClassPrototype
import HostObjects.Proofs.View.Walk
import HostObjects.View.Enumerate

/-!
# The names that enumerations list

An enumeration lists names in three nested loops: over the objects of a prototype chain,
over the classes of each and over the entries of each class.  What it lists at an object is
`Row.listed`: the names that the callbacks of its class chain add, the static entries that
its classes declare and the names of its own properties.  The answers of the callbacks
depend on the host, so they are followed in the order in which they are given: `Asked` for
one object and `Toured` for a chain, each with the first fault as its end.

Callbacks may do what they like, as long as they leave the chain as the enumeration found
it: links, classes and own properties (`SameRows`).  Then the result is the first fault of
the tour or, with every name where it comes first, the rows of the chain one after the other
(`propertyNames_of_chain`).
-/

namespace HostObjects

open Heap

variable {σ : Type} {host : Host σ} {s s' t : Session σ} {o p : Handle} {h : Heap}

/-! ### What is declared -/

/-- The names that the static entries of a class chain list: the values of every class and,
from the first class without an automatic prototype on, the functions. -/
def Class.declaredNames (c : Class) : List Text :=
  c.automaticPrefix.flatMap View.visibleValues ++
    c.onInstance.flatMap fun d => View.visibleValues d ++ View.visibleFunctions d

theorem staticNames_true (ds : List Descriptor) :
    View.staticNames true ds =
      ds.flatMap fun d => View.visibleValues d ++ View.visibleFunctions d := by
  induction ds with
  | nil => rfl
  | cons d ds ih =>
      rw [List.flatMap_cons, ← ih]
      rfl

/-- **Functions are listed from the first class without an automatic prototype on.** -/
theorem staticNames_false (ds : List Descriptor) :
    View.staticNames false ds =
      (ds.takeWhile Descriptor.automatic).flatMap View.visibleValues ++
        (ds.dropWhile Descriptor.automatic).flatMap fun d =>
          View.visibleValues d ++ View.visibleFunctions d := by
  induction ds with
  | nil => rfl
  | cons d ds ih =>
      unfold View.staticNames
      cases automatic : d.automatic with
      | true =>
          rw [List.takeWhile_cons_of_pos automatic, List.dropWhile_cons_of_pos automatic,
            List.flatMap_cons, List.append_assoc, List.append_assoc, ← ih]
          rfl
      | false =>
          rw [List.takeWhile_cons_of_neg (by simp [automatic]),
            List.dropWhile_cons_of_neg (by simp [automatic]), List.flatMap_cons,
            ← staticNames_true]
          rfl

theorem Class.staticNames_chain (c : Class) : View.staticNames false c.chain = c.declaredNames :=
  staticNames_false c.chain

/-! ### Rows -/

/-- An object on a prototype chain, as an enumeration reads it. -/
structure Row where
  object : Handle
  ofClass : Option Class
  properties : List Property

/-- The row of an object. -/
def Heap.row (h : Heap) (o : Handle) : Row :=
  match h.object o with
  | .ok obj => ⟨o, obj.ofClass, obj.properties⟩
  | .error _ => ⟨o, none, []⟩

namespace Row

/-- The names callbacks of the class chain, most derived first. -/
def callbacks (r : Row) : List HostFunction :=
  match r.ofClass with
  | some c => c.chain.filterMap fun d => d.callbacks .names
  | none => []

/-- The names that the static entries of the class chain list. -/
def declared (r : Row) : List Text := (r.ofClass.map Class.declaredNames).getD []

/-- The names listed at the object, of which each callback has added some. -/
def listed (r : Row) (added : List (List Text)) : List Text :=
  added.flatten ++ r.declared ++ Property.visibleNames r.properties

end Row

theorem Heap.object_row (h : Heap) (o : Handle) : (h.row o).object = o := by
  unfold Heap.row
  split <;> rfl

theorem Heap.classOf_row (valid : h.isValid o = true) :
    h.classOf o = .ok (h.row o).ofClass := by
  obtain ⟨obj, found⟩ := isValid_iff.mp valid
  simp [Heap.classOf, Heap.row, found, Except.map]

theorem Heap.ownNames_row (valid : h.isValid o = true) :
    h.ownNames o = .ok (Property.visibleNames (h.row o).properties) := by
  obtain ⟨obj, found⟩ := isValid_iff.mp valid
  simp [Heap.ownNames, Heap.row, found, Except.map]

/-! ### The tour of the callbacks -/

/-- The session in which an operation also holds on to classes. -/
def Session.hold (s : Session σ) (cs : List Class) : Session σ :=
  { s with holding := cs ++ s.holding }

/-- The session, holding on to the classes of another one. -/
def Session.release (s : Session σ) (held : List Class) : Session σ := { s with holding := held }

theorem holding_apply {α : Type} (cs : List Class) (act : Action σ α) (s : Session σ) :
    Action.holding cs act s =
      ((act (s.hold cs)).1, (act (s.hold cs)).2.release s.holding) := rfl

/-- Names callbacks are asked about an object one after the other, each in the session that
the one before left and told how many names are listed, until one fails. -/
inductive Asked (host : Host σ) (p : Handle) :
    List HostFunction → Nat → Session σ → List (List Text) → Option Fault → Session σ → Prop
  | nil (n : Nat) (s : Session σ) : Asked host p [] n s [] none s
  | fails {f : HostFunction} {fs : List HostFunction} {n : Nat} {s s' : Session σ} {e : Fault}
      (answer : host.answer f (.names p n) s = (.error e, s')) :
      Asked host p (f :: fs) n s [] (some e) s'
  | adds {f : HostFunction} {fs : List HostFunction} {n : Nat} {s t s' : Session σ}
      {added : List Text} {more : List (List Text)} {fault : Option Fault}
      (answer : host.answer f (.names p n) s = (.ok added, t))
      (rest : Asked host p fs (n + added.length) t more fault s') :
      Asked host p (f :: fs) n s (added :: more) fault s'

/-- The names callbacks of each row are asked in turn, and the class of the row is held
meanwhile, until one fails. -/
inductive Toured (host : Host σ) :
    List Row → Nat → Session σ → List (List (List Text)) → Option Fault → Session σ → Prop
  | nil (n : Nat) (s : Session σ) : Toured host [] n s [] none s
  | fails {r : Row} {rs : List Row} {n : Nat} {s t : Session σ} {added : List (List Text)}
      {e : Fault}
      (asked : Asked host r.object r.callbacks n (s.hold r.ofClass.toList) added (some e) t) :
      Toured host (r :: rs) n s [added] (some e) (t.release s.holding)
  | lists {r : Row} {rs : List Row} {n : Nat} {s t s' : Session σ} {added : List (List Text)}
      {more : List (List (List Text))} {fault : Option Fault}
      (asked : Asked host r.object r.callbacks n (s.hold r.ofClass.toList) added none t)
      (rest : Toured host rs (n + (r.listed added).length) (t.release s.holding) more fault s') :
      Toured host (r :: rs) n s (added :: more) fault s'

/-- The answer, unless something failed. -/
def answerUnless {α : Type} (a : α) : Option Fault → Except Fault α
  | some e => .error e
  | none => .ok a

/-- What each callback keeps is kept while they are asked. -/
theorem Asked.keeps {J : Session σ → Prop} {fs : List HostFunction} {n : Nat}
    {added : List (List Text)} {fault : Option Fault}
    (asked : Asked host p fs n s added fault s')
    (keep : ∀ f ∈ fs, ∀ n, Preserves J (host.answer f (.names p n))) (hs : J s) : J s' := by
  induction asked with
  | nil => exact hs
  | @fails f _ n _ _ e answer =>
      exact (keep f List.mem_cons_self n _ hs).2 e _ answer
  | @adds f _ n _ _ _ added _ _ answer _ ih =>
      refine ih (fun g mem => keep g (List.mem_cons_of_mem _ mem)) ?_
      exact (keep f List.mem_cons_self n _ hs).1 added _ answer

/-- **The callbacks of a class chain are asked in order.** -/
theorem asked_namesByCallbacks (ds : List Descriptor) (listed : List Text) (s : Session σ) :
    ∃ added fault s',
      Asked host p (ds.filterMap fun d => d.callbacks .names) listed.length s added fault s' ∧
        View.namesByCallbacks host p ds listed s =
          (answerUnless (listed ++ added.flatten) fault, s') := by
  induction ds generalizing listed s with
  | nil => exact ⟨[], none, s, .nil _ s, by simp [View.namesByCallbacks, answerUnless]; rfl⟩
  | cons d ds ih =>
      unfold View.namesByCallbacks
      cases callback : d.callbacks .names with
      | none =>
          rw [List.filterMap_cons_none (f := fun d : Descriptor => d.callbacks .names) callback]
          exact ih listed s
      | some f =>
          rw [List.filterMap_cons_some (f := fun d : Descriptor => d.callbacks .names) callback]
          dsimp only
          rw [bind_apply]
          rcases answer : host.answer f (.names p listed.length) s with ⟨e | added, t⟩
          · exact ⟨[], some e, t, .fails answer, rfl⟩
          · obtain ⟨more, fault, s', asked, result⟩ := ih (listed ++ added) t
            rw [List.length_append] at asked
            refine ⟨added :: more, fault, s', .adds answer asked, ?_⟩
            rw [List.flatten_cons, ← List.append_assoc]
            exact result

/-! ### Along the chain -/

/-- What callbacks are to leave unchanged: an object that is rooted, its prototype chain, and
the class and the own properties of every object on the chain. -/
structure Heap.SameRows (start : Heap) (o : Handle) (chain : List Handle) (h : Heap) :
    Prop where
  intact : Intact h
  rooted : .object o ∈ h.stack
  linked : PrototypeChain h o chain
  same : ∀ p ∈ chain, h.row p = start.row p

variable {start : Heap} {chain : List Handle}

/-- The names callbacks of the objects on the chain leave the chain unchanged. -/
def Host.LeavesRows (host : Host σ) (start : Heap) (o : Handle) (chain : List Handle) : Prop :=
  ∀ p ∈ chain, ∀ f ∈ (start.row p).callbacks, ∀ n,
    Preserves (fun s => start.SameRows o chain s.heap) (host.answer f (.names p n))

/-- What is listed at an object is its row. -/
theorem asked_namesAt (leaves : host.LeavesRows start o chain) (mem : p ∈ chain)
    (same : start.SameRows o chain s.heap) (listed : List Text) :
    ∃ added fault t,
      Asked host (start.row p).object (start.row p).callbacks listed.length
        (s.hold (start.row p).ofClass.toList) added fault t ∧
      View.namesAt host listed p s =
        (answerUnless (listed ++ (start.row p).listed added) fault, t.release s.holding) ∧
      start.SameRows o chain t.heap := by
  have valid := same.linked.isValid p mem
  have ofClass := classOf_row valid
  rw [same.same p mem] at ofClass
  rw [start.object_row]
  -- Whatever was listed before, the own properties come last.
  have own : ∀ (before : List Text) (t : Session σ), start.SameRows o chain t.heap →
      (do return before ++ (← Action.reading fun h => h.ownNames p) : Action σ (List Text)) t =
        (.ok (before ++ Property.visibleNames (start.row p).properties), t) := by
    intro before t ht
    rw [bind_apply]
    simp only [Action.reading, ownNames_row (ht.linked.isValid p mem), ht.same p mem]
    rfl
  unfold View.namesAt
  rw [bind_apply]
  simp only [Action.reading, ofClass]
  cases c? : (start.row p).ofClass with
  | none =>
      refine ⟨[], none, s, ?_, ?_, same⟩
      · rw [Row.callbacks, c?]
        exact .nil _ s
      · refine (own listed s same).trans ?_
        simp [Row.listed, Row.declared, c?, answerUnless, Session.release]
  | some c =>
      have callbacks : (start.row p).callbacks = c.chain.filterMap fun d => d.callbacks .names := by
        rw [Row.callbacks, c?]
      obtain ⟨added, fault, t, asked, result⟩ :=
        asked_namesByCallbacks c.chain listed (s.hold [c])
      rw [← callbacks] at asked
      have kept : start.SameRows o chain t.heap := asked.keeps (leaves p mem) same
      refine ⟨added, fault, t, asked, ?_, kept⟩
      dsimp only
      rw [bind_apply]
      have held : Action.holding [c] (View.namesByClass host p c listed) s =
          (answerUnless (listed ++ added.flatten ++ c.declaredNames) fault,
            t.release s.holding) := by
        rw [holding_apply]
        unfold View.namesByClass
        rw [bind_apply, result]
        cases fault with
        | some e => rfl
        | none =>
            dsimp only [answerUnless]
            rw [c.staticNames_chain]
            rfl
      rw [held]
      cases fault with
      | some e => rfl
      | none =>
          refine (own _ (t.release s.holding) kept).trans ?_
          simp [Row.listed, Row.declared, c?, answerUnless]

/-- The visits of an enumeration. -/
def visitNames (host : Host σ) (listed : List Text) (p : Handle) :
    Action σ (Empty ⊕ List Text) := do
  return .inr (← View.namesAt host listed p)

theorem visitNames_apply (listed : List Text) (p : Handle) (s : Session σ) :
    visitNames host listed p s =
      match View.namesAt host listed p s with
      | (.ok names, s') => (.ok (.inr names), s')
      | (.error e, s') => (.error e, s') := by
  unfold visitNames
  rw [bind_apply]
  rcases View.namesAt host listed p s with ⟨e | names, s'⟩ <;> rfl

theorem kept_visitNames (leaves : host.LeavesRows start o chain) :
    KeptByVisits (fun s => start.SameRows o chain s.heap) (visitNames host) chain := by
  intro p mem listed s same names s' visited
  obtain ⟨added, fault, t, -, result, kept⟩ := asked_namesAt leaves mem same listed
  rw [visitNames_apply, result] at visited
  cases fault with
  | some e => cases visited
  | none =>
      cases visited
      exact kept

/-- **The rows of a chain are listed one after the other.** -/
theorem toured_visitAll (leaves : host.LeavesRows start o chain) {ps : List Handle}
    (part : ∀ p ∈ ps, p ∈ chain) {budget : Nat} (short : ps.length ≤ budget)
    (same : start.SameRows o chain s.heap) (listed : List Text) :
    ∃ added fault s', Toured host (ps.map start.row) listed.length s added fault s' ∧
      (visitAll (visitNames host) budget listed ps s).1 =
        answerUnless (.inr (listed ++
          (List.zipWith Row.listed (ps.map start.row) added).flatten)) fault := by
  induction ps generalizing budget listed s with
  | nil => exact ⟨[], none, s, .nil _ s, by simp [visitAll, answerUnless]; rfl⟩
  | cons p ps ih =>
      obtain ⟨budget, rfl⟩ := Nat.exists_eq_add_of_le' (Nat.le_trans (Nat.succ_pos _) short)
      obtain ⟨added, fault, t, asked, result, kept⟩ :=
        asked_namesAt leaves (part p List.mem_cons_self) same listed
      unfold visitAll
      rw [bind_apply, visitNames_apply, result]
      cases fault with
      | some e => exact ⟨[added], some e, _, .fails asked, rfl⟩
      | none =>
          obtain ⟨more, fault, s', toured, rest⟩ :=
            ih (fun q mem => part q (List.mem_cons_of_mem _ mem)) (Nat.le_of_succ_le_succ short)
              (s := t.release s.holding) kept (listed ++ (start.row p).listed added)
          rw [List.length_append] at toured
          refine ⟨added :: more, fault, s', .lists asked toured, rest.trans ?_⟩
          simp [List.append_assoc]

theorem namesOnChain_of_chain (leaves : host.LeavesRows start o chain)
    (same : start.SameRows o chain s.heap) :
    (View.namesOnChain host o s).1 =
      (visitAll (visitNames host) maxPrototypeChain [] chain s).1.map fun
        | .inr names => View.firstOccurrences names := by
  have walked : walkFrom (visitNames host) [] (some o) s =
      visitAll (visitNames host) maxPrototypeChain [] chain s :=
    walkFrom_of_chain (fun _ same => same.linked) (kept_visitNames leaves) [] same
  show ((walkFrom (visitNames host) [] (some o) >>= _) s).1 = _
  rw [bind_apply, walked]
  rcases visitAll (visitNames host) maxPrototypeChain [] chain s with ⟨e | out, t⟩
  · rfl
  · cases out with
    | inl none => exact none.elim
    | inr names => rfl

theorem Heap.sameRows_rootAll (ok : Intact h) (walk : PrototypeChain h o chain) :
    h.SameRows o chain (h.rootAll [.object o]) where
  intact := ok.congr (h.sameTable_rootAll _)
  rooted := mem_stack_rootAll (List.mem_singleton.mpr rfl) walk.isValid_start
  linked := walk.congr fun p _ => by
    rw [Heap.prototype, Heap.prototype, (h.sameTable_rootAll _).object]
  same p _ := by rw [Heap.row, Heap.row, (h.sameTable_rootAll _).object]

theorem propertyNames_eq (ok : Intact s.heap) (walk : PrototypeChain s.heap o chain)
    (leaves : host.LeavesRows s.heap o chain) :
    (View.propertyNames host o s).1 =
      (visitAll (visitNames host) maxPrototypeChain [] chain
        (s.withHeap (s.heap.rootAll [.object o]))).1.map fun
          | .inr names => View.firstOccurrences names := by
  have form : View.propertyNames host o = _ :=
    (Invocation.names o).perform_eq_withOperands rfl
  rw [form, withOperands_fst walk.isValid_start]
  exact namesOnChain_of_chain leaves (s := s.withHeap (s.heap.rootAll [.object o]))
    (sameRows_rootAll ok walk)

/-- **An enumeration lists a chain row by row.**  If the names callbacks leave the chain as
it is, the first fault of a callback is the result; without a fault, what is listed at the
object and its prototypes in order, each name where it comes first. -/
theorem propertyNames_of_chain (ok : Intact s.heap) (walk : PrototypeChain s.heap o chain)
    (short : chain.length ≤ maxPrototypeChain) (leaves : host.LeavesRows s.heap o chain) :
    ∃ added fault s',
      Toured host (chain.map s.heap.row) 0 (s.withHeap (s.heap.rootAll [.object o]))
        added fault s' ∧
      (View.propertyNames host o s).1 = answerUnless (View.firstOccurrences
        (List.zipWith Row.listed (chain.map s.heap.row) added).flatten) fault := by
  obtain ⟨added, fault, s', toured, result⟩ :=
    toured_visitAll leaves (fun _ mem => mem) short
      (s := s.withHeap (s.heap.rootAll [.object o])) (sameRows_rootAll ok walk) []
  refine ⟨added, fault, s', toured, ?_⟩
  rw [propertyNames_eq ok walk leaves, result]
  cases fault <;> rfl

/-! ### Callbacks that allocate and add names -/

namespace Heap.SameRows

/-- A collection leaves the chain of a rooted object as it is. -/
theorem collect (same : start.SameRows o chain h) (held : ClassId → Bool) :
    start.SameRows o chain (h.collect held) := by
  have alive : Alive held h (.object o) :=
    .stack (Array.mem_def.mp same.rooted) same.linked.isValid_start
  refine ⟨same.intact.collect held, same.rooted, same.linked.collect same.intact alive,
    fun p mem => ?_⟩
  obtain ⟨obj, found⟩ := isValid_iff.mp (same.linked.isValid p mem)
  rw [← same.same p mem, Heap.row, Heap.row, found,
    object_collect_of_alive same.intact found (same.linked.alive alive p mem)]

/-- So does whatever leaves the objects and the roots alone, or adds to them. -/
theorem of_objects (same : start.SameRows o chain h) {h' : Heap} (ok : Intact h')
    (objects : ∀ p, h.isValid p = true → h'.object p = h.object p)
    (rooted : .object o ∈ h'.stack) : start.SameRows o chain h' := by
  have there := same.linked.isValid
  refine ⟨ok, rooted, same.linked.congr fun p mem => ?_, fun p mem => ?_⟩
  · rw [Heap.prototype, Heap.prototype, objects p (there p mem)]
  · rw [← same.same p mem, Heap.row, Heap.row, objects p (there p mem)]

theorem beside (same : start.SameRows o chain h) {h' : Heap} (table : SameTable h h')
    (stack : h'.stack = h.stack) : start.SameRows o chain h' :=
  same.of_objects (same.intact.congr table) (fun p _ => by rw [table.object])
    (stack ▸ same.rooted)

theorem place (same : start.SameRows o chain h) (obj : HostObject) :
    start.SameRows o chain (h.place obj).2 := by
  have empty := same.intact.freeIsEmpty
  refine same.of_objects (stable_intact.place obj h same.intact) (fun p valid => ?_)
    (by rw [place_stack]; exact same.rooted)
  rw [object_place empty, if_neg]
  rintro rfl
  rw [not_isValid_place_fst empty] at valid
  cases valid

theorem settled (same : start.SameRows o chain h) :
    start.SameRows o chain { h with reaped := [] } :=
  same.beside ⟨rfl, rfl, rfl, rfl, rfl⟩ rfl

theorem push (same : start.SameRows o chain h) (v : Value) :
    start.SameRows o chain (h.pushRoot v) :=
  same.of_objects (same.intact.congr ⟨rfl, rfl, rfl, rfl, rfl⟩) (fun _ _ => rfl)
    (Array.mem_push_of_mem _ same.rooted)

end Heap.SameRows

/-- Allocating a plain object, with the collection that it may take, leaves the chain of a
rooted object as it is. -/
theorem sameRows_allocPlain (held : ClassId → Bool) :
    Preserves (start.SameRows o chain) (allocPlain held) := by
  have room : ∀ bytes, Preserves (start.SameRows o chain) (makeRoom held bytes) := by
    refine fun bytes => Preserves.of_state fun h same => ?_
    rcases makeRoom_state held bytes h with eq | eq | eq <;> rw [eq]
    · exact same
    · exact same.beside ⟨rfl, rfl, rfl, rfl, rfl⟩ rfl
    · exact same.collect held
  exact Preserves.get.bind fun h => (room _).bind fun _ =>
    Preserves.modifyGet fun h same => same.place _

theorem sameRows_makePlain (host : Host σ) :
    Preserves (fun s => start.SameRows o chain s.heap) (View.makePlain host) :=
  (preserves_allocating (fun _ same => same.settled) sameRows_allocPlain).bind fun _ =>
    (Preserves.of_state fun _ same => same.push _).bind fun _ => Preserves.pure _

/-- A host whose names callbacks make a plain object, and then add the number of the
callback and the count that they were told. -/
def namingHost : Host Unit :=
  { idleHost with
    answer := fun f r => do
      let _ ← View.makePlain idleHost
      fun s =>
        match r with
        | .names _ n => (.ok [Text.ofNat f.number, Text.ofNat n], s)
        | r => (r.unanswered, s) }

theorem leavesRows_namingHost (start : Heap) (o : Handle) (chain : List Handle) :
    namingHost.LeavesRows start o chain :=
  fun _ _ _ _ _ => (sameRows_makePlain idleHost).bind fun _ => Preserves.of_state fun _ same => same

/-- A class with an automatic prototype, and its parent without one.  Each has a names
callback, and they declare some names twice. -/
def namedClass : Class where
  own :=
    { id := ⟨1⟩, version := 0, name := Text.ofString "Named", automatic := true
      values := [⟨Text.ofString "v", .none, none, none⟩,
        ⟨Text.ofString "u", ⟨false, true, false⟩, none, none⟩,
        ⟨Text.ofString "u", .none, none, none⟩]
      functions := [⟨Text.ofString "f", .none, ⟨0⟩⟩]
      callbacks := fun op => if op = .names then some ⟨7⟩ else none }
  ancestors :=
    [{ id := ⟨0⟩, version := 0, name := Text.ofString "Base", automatic := false
       values := [⟨Text.ofString "w", .none, none, none⟩]
       functions := [⟨Text.ofString "g", .none, ⟨1⟩⟩, ⟨Text.ofString "v", .none, ⟨2⟩⟩]
       callbacks := fun op => if op = .names then some ⟨8⟩ else none }]

/-- A heap with an instance that has a property of its own. -/
def namedHeap : Heap :=
  after (new ⟨0⟩ .standard .synchronous)
    (turnsOf [.prototypeOf namedClass, .allocInstance namedClass none ⟨⟨0⟩, 2, 0⟩,
      .putOwn ⟨⟨0⟩, 4, 0⟩ ⟨Text.ofString "own", .null, .none⟩])

/-- There the names of both callbacks come first, then the value of the class, the value and
the function of its parent that are new, the own property, and the function on the shared
prototype. -/
theorem propertyNames_of_chain_named :
    (∃ added fault s',
      Toured namingHost ([⟨⟨0⟩, 4, 0⟩, ⟨⟨0⟩, 2, 0⟩, ⟨⟨0⟩, 0, 0⟩].map namedHeap.row) 0
        ⟨namedHeap.rootAll [.object ⟨⟨0⟩, 4, 0⟩], [], ()⟩ added fault s' ∧
      (View.propertyNames namingHost ⟨⟨0⟩, 4, 0⟩ ⟨namedHeap, [], ()⟩).1 =
        answerUnless (View.firstOccurrences
          (List.zipWith Row.listed ([⟨⟨0⟩, 4, 0⟩, ⟨⟨0⟩, 2, 0⟩, ⟨⟨0⟩, 0, 0⟩].map namedHeap.row)
            added).flatten) fault) ∧
    (View.propertyNames namingHost ⟨⟨0⟩, 4, 0⟩ ⟨namedHeap, [], ()⟩).1 =
      .ok (["7", "0", "8", "2", "v", "w", "g", "own", "f"].map Text.ofString) := by
  have walk : PrototypeChain namedHeap ⟨⟨0⟩, 4, 0⟩ [⟨⟨0⟩, 4, 0⟩, ⟨⟨0⟩, 2, 0⟩, ⟨⟨0⟩, 0, 0⟩] :=
    .link (by decide +kernel) (.link (by decide +kernel) (.last (by decide +kernel)))
  have ok : Intact namedHeap := ((Reachable.new _ _ _).after _).intact
  have leaves := leavesRows_namingHost namedHeap ⟨⟨0⟩, 4, 0⟩
  refine ⟨propertyNames_of_chain (s := ⟨namedHeap, [], ()⟩) ok walk (by decide +kernel)
    (leaves _), ?_⟩
  rw [propertyNames_eq (s := ⟨namedHeap, [], ()⟩) ok walk (leaves _)]
  decide +kernel

end HostObjects
