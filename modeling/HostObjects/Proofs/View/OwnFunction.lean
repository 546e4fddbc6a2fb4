import HostObjects.Proofs.View.Agreement
import HostObjects.Proofs.View.Sealed
import HostObjects.Proofs.View.Search

/-!
# Functions that become own properties

The static functions of a class without a shared prototype are found on its instances.  The first
read of one makes a function and adds it to the own properties of the instance
(`AddsFunction`), and later reads find it there like any other property.

A read asks callbacks and getters first, which may do what they like.  Here they decline
(`Declined`), and what they do meanwhile counts as part of the run, as do operations and
collections between one read and the next: as long as the instance stays and nothing in the run
changes the property, reads give the same function, which is there
(`HoldsFunction.reads`).

The handle of a new function names nothing that is there.  So a function that an instance still has
is not made again for another one (`HoldsFunction.apart`).
-/

namespace HostObjects

open Heap

variable {σ : Type} {host : Host σ} {s s' t u : Session σ} {o q f : Handle} {p : Property}
  {h h' : Heap} {name : Text} {entry : StaticFunction} {v : Value}

/-! ### Reads that no callback answers -/

/-- The static function of the name that is found on the object itself. -/
def Row.instanceFunction? (name : Text) (r : Row) : Option StaticFunction :=
  r.functionClasses.findSome? fun d => d.function? name

/-- What a look-up asks at an object before it looks for functions and own properties: the `get`
callback of each class and the getter of the first static value of the name of each class. -/
def Row.askers (host : Host σ) (name : Text) (r : Row) : List (Action σ (Option Value)) :=
  r.classes.map (fun d => host.poll (.get r.object name) (d.callbacks .get)) ++
    r.classes.map fun d =>
      host.poll (.get r.object name) ((d.value? name).bind StaticValue.getter)

/-- No callback and no getter answers when the property of the object is read, and then the session
is `t`. -/
def Declined (host : Host σ) (o : Handle) (name : Text) (s t : Session σ) : Prop :=
  Consulted ((s.heap.row o).askers host name) ((s.on o).hold (s.heap.row o).ofClass.toList)
    (.ok none) t

theorem Row.valueSources_eq (host : Host σ) (name : Text) (r : Row) :
    r.valueSources host name = r.askers host name ++
      ((r.functionClasses.findSome? fun d => d.function? name).toList.map
          (fun entry => some <$> View.instanceFunction host r.object entry name) ++
        [Action.reading fun h => h.getOwn r.object name]) := by
  rw [valueSources, askers, List.append_assoc]

/-- All that is asked are host functions, about the object. -/
theorem Row.of_mem_askers {r : Row} {act : Action σ (Option Value)}
    (mem : act ∈ r.askers host name) : ∃ f, act = host.poll (.get r.object name) f := by
  rcases List.mem_append.mp mem with mem | mem <;> obtain ⟨d, -, rfl⟩ := List.mem_map.mp mem
  · exact ⟨_, rfl⟩
  · exact ⟨_, rfl⟩

theorem Declined.within (declined : Declined host o name s t) (lawful : host.Lawful) :
    Within (s.on o).heap t.heap := by
  have above : ∀ act ∈ (s.heap.row o).askers host name, act.Above := by
    intro act mem
    obtain ⟨f, rfl⟩ := Row.of_mem_askers mem
    exact above_poll lawful _ f
  exact Consulted.within (s := (s.on o).hold _) declined above

/-- Then the function or the own property is looked for. -/
theorem getAt_of_declined (valid : s.heap.isValid o = true) (declined : Declined host o name s t) :
    View.getAt host o name (s.on o) =
      ((valueWithin host o name (s.heap.row o) t).1,
        (valueWithin host o name (s.heap.row o) t).2.release s.holding) := by
  have ofClass : (s.on o).heap.classOf (s.heap.row o).object = .ok (s.heap.row o).ofClass := by
    rw [object_row, ← classOf_row valid, Heap.classOf, Heap.classOf]
    exact congrArg _ (congrFun (s.heap.sameTable_rootAll _).object o)
  obtain ⟨u, consulted, left⟩ := looksAt_getAt host name (s.heap.row o) (s.on o) ofClass
  rw [Row.valueSources_eq] at consulted
  have rest := consulted.rest declined
  rw [object_row] at rest left
  have asked : valueWithin host o name (s.heap.row o) t =
      ((View.getAt host o name (s.on o)).1, u) := by
    unfold valueWithin
    cases function : (s.heap.row o).functionClasses.findSome? fun d => d.function? name with
    | none =>
        rw [function] at rest
        exact rest.of_head (Or.inl rfl)
    | some entry =>
        rw [function] at rest
        refine rest.of_head (Or.inr fun w passed => ?_)
        dsimp only at passed
        rw [map_apply] at passed
        rcases run : View.instanceFunction host o entry name t with ⟨e | v, t'⟩ <;>
          rw [run] at passed <;> cases passed
  rw [asked]
  exact Prod.ext rfl left

theorem getAt_of_function (valid : s.heap.isValid o = true)
    (declared : (s.heap.row o).instanceFunction? name = some entry)
    (declined : Declined host o name s t) :
    View.getAt host o name (s.on o) =
      ((View.instanceFunction host o entry name t).1.map some,
        (View.instanceFunction host o entry name t).2.release s.holding) := by
  rw [Row.instanceFunction?] at declared
  rw [getAt_of_declined valid declined, valueWithin, declared]
  dsimp only
  rw [map_apply]
  rcases View.instanceFunction host o entry name t with ⟨e | v, u⟩ <;> rfl

/-- The end of an operation moves the stack only. -/
theorem Heap.sameTable_ended (h : Heap) (height : Nat) (v : Option Value) :
    SameTable h ((h.cutStack height).withResult v) := by
  cases v <;> exact ⟨rfl, rfl, rfl, rfl, rfl⟩

/-- An own property is read, whatever the class declares. -/
theorem getProperty_of_declined (valid : s.heap.isValid o = true)
    (declined : Declined host o name s t) (own : t.heap.ownProperty o name = .ok (some p)) :
    ∃ s', View.getProperty host o name s = (.ok p.value, s') ∧ SameTable t.heap s'.heap := by
  have read : t.heap.getOwn o name = .ok (some p.value) := by
    rw [Heap.getOwn, own]
    rfl
  have within : valueWithin host o name (s.heap.row o) t = (.ok (some p.value), t) := by
    unfold valueWithin
    cases (s.heap.row o).functionClasses.findSome? fun d => d.function? name with
    | none => exact Prod.ext read rfl
    | some entry =>
        dsimp only
        rw [map_apply, instanceFunction_of_own read]
  have visit := getAt_of_declined valid declined
  rw [within] at visit
  refine ⟨_, getProperty_of_answer valid visit, ?_⟩
  exact t.heap.sameTable_ended _ (some p.value)

/-! ### First reads -/

/-- The function is new, runs the callback of the entry, and is the last property of the object,
with the attributes of the entry; the other properties are those that were there. -/
structure Heap.AddsFunction (h h' : Heap) (o : Handle) (name : Text) (entry : StaticFunction)
    (f : Handle) : Prop where
  fresh : h.isValid f = false
  added : ∃ obj, h.object o = .ok obj ∧
    h'.object o = .ok (withAdded ⟨name, .object f, entry.attributes⟩ obj)
  missing : h.ownProperty o name = .ok none
  runs : ∃ obj, h'.object f = .ok obj ∧ obj.Runs name entry.call

namespace Heap.AddsFunction

variable {h'' : Heap}

theorem congr (adds : AddsFunction h h' o name entry f) (same : SameTable h' h'') :
    AddsFunction h h'' o name entry f where
  fresh := adds.fresh
  added := same.object ▸ adds.added
  missing := adds.missing
  runs := same.object ▸ adds.runs

theorem isValid (adds : AddsFunction h h' o name entry f) : h'.isValid f = true := by
  obtain ⟨obj, found, -⟩ := adds.runs
  exact isValid_of_object found

theorem ownProperty (adds : AddsFunction h h' o name entry f) :
    h'.ownProperty o name = .ok (some ⟨name, .object f, entry.attributes⟩) := by
  obtain ⟨obj, before, after⟩ := adds.added
  have missing := adds.missing
  rw [ownProperty_of_object before, Except.ok.injEq] at missing
  rw [ownProperty_of_object after]
  exact congrArg _ (Property.find?_append missing)

end Heap.AddsFunction

/-- **A function that its object does not have is made and added**, if there is room. -/
theorem addsFunction_of_instanceFunction (ok : Intact t.heap) (rooted : .object o ∈ t.heap.stack)
    (missing : t.heap.ownProperty o name = .ok none)
    (run : View.instanceFunction host o entry name t = (.ok v, u)) :
    ∃ f, v = .object f ∧ t.heap.AddsFunction u.heap o name entry f := by
  obtain ⟨obj, found⟩ := isValid_iff.mp (isValid_of_ownProperty missing)
  have absent := missing
  rw [ownProperty_of_object found, Except.ok.injEq] at absent
  have read : t.heap.getOwn o name = .ok none := by
    rw [Heap.getOwn, missing]
    rfl
  unfold View.instanceFunction at run
  rw [bind_apply] at run
  simp only [Action.reading, read] at run
  obtain ⟨f, t₁, made, run⟩ := of_bind_ok run
  unfold View.makeFunction at made
  obtain ⟨f', t₂, allocated, made⟩ := of_bind_ok made
  obtain ⟨h₁, alloc, same₁, stack₁⟩ := of_allocating allocated
  cases made
  obtain ⟨⟨⟩, t₃, defined, run⟩ := of_bind_ok run
  obtain ⟨h₂, define, same₂, -⟩ := of_allocating defined
  cases run
  -- The object is rooted while the function is made, and the function while it is stored.
  have there : Known t.heap.stack [(o, obj)] t.heap :=
    ⟨ok, rfl, by simpa using found, by simp⟩
  have anchored : Anchored t.heap.stack [(o, obj)] := anchored_nil.cons (Array.mem_def.mp rooted)
  obtain ⟨K, ⟨fobj, runs, rfl⟩, known₁⟩ :=
    (Learns.allocFunction anchored _ name entry.call _ there).1 f h₁ alloc
  have known₂ := ((known₁.beside same₁ stack₁).push (.object f)).perm (.swap _ _ [])
  have both : Anchored (t.heap.stack.push (.object f)) [(f, fobj), (o, obj)] :=
    (anchored.push (.object f)).cons (by simp)
  obtain ⟨K, rfl, known₃⟩ := (Learns.defineOwn (both.perm (.swap _ _ [])) _ absent _ known₂).1 () h₂ define
  refine ⟨f, rfl, (isNew_allocFunction ok alloc).invalid, ⟨obj, found, ?_⟩, missing, fobj, ?_, runs⟩
  · rw [same₂.object]
    exact known₃.found _ List.mem_cons_self
  · rw [same₂.object]
    exact known₃.found (f, fobj) (List.mem_cons_of_mem _ List.mem_cons_self)

/-- Only an object that is there has a class. -/
theorem Heap.isValid_of_function
    (declared : (h.row o).instanceFunction? name = some entry) :
    h.isValid o = true := by
  unfold Heap.row at declared
  cases found : h.object o with
  | ok obj => exact isValid_of_object found
  | error e =>
      rw [found] at declared
      cases declared

/-- **A read adds a function that the object does not have.** -/
theorem addsFunction_of_getProperty (lawful : host.Lawful) (ok : Intact s.heap)
    (declared : (s.heap.row o).instanceFunction? name = some entry)
    (declined : Declined host o name s t) (missing : t.heap.ownProperty o name = .ok none)
    (read : View.getProperty host o name s = (.ok v, s')) :
    ∃ f, v = .object f ∧ t.heap.AddsFunction s'.heap o name entry f := by
  have valid := isValid_of_function declared
  have within := declined.within lawful
  have visit := getAt_of_function valid declared declined
  rcases run : View.instanceFunction host o entry name t with ⟨e | w, u⟩ <;> rw [run] at visit
  · rw [getProperty_of_failure valid visit] at read
    cases read
  · have intact := within.intact (ok.congr (s.heap.sameTable_rootAll _))
    have rooted := within.mem_stack (mem_stack_rootAll List.mem_cons_self valid)
    obtain ⟨f, rfl, adds⟩ := addsFunction_of_instanceFunction intact rooted missing run
    rw [getProperty_of_answer valid visit] at read
    cases read
    exact ⟨f, rfl, adds.congr (u.heap.sameTable_ended _ (some (.object f)))⟩

/-! ### Later reads -/

/-- A later read of a property of `q`: up to the time at which no callback and no getter has
answered it, the object `o` stays and its property is left alone. -/
structure LaterRead (host : Host σ) (o : Handle) (p : Property) (h : Heap) (q : Handle)
    (name : Text) (s t : Session σ) : Prop where
  before : LeftAlone o p h s.heap
  declined : Declined host q name s t
  during : LeftAlone o p (s.on q).heap t.heap

theorem Heap.LeftAlone.on (calm : LeftAlone o p h s.heap) (ok : Intact h)
    (own : h.ownProperty o p.name = .ok (some p)) (q : Handle) :
    Intact (s.on q).heap ∧ (s.on q).heap.ownProperty o p.name = .ok (some p) := by
  have table := s.heap.sameTable_rootAll [.object q]
  refine ⟨(calm.intact ok).congr table, ?_⟩
  rw [← calm.ownProperty ok own, Heap.ownProperty, Heap.ownProperty]
  exact congrArg _ (congrFun table.object o)

namespace LaterRead

variable (later : LaterRead host o p h q name s t) (ok : Intact h)
  (own : h.ownProperty o p.name = .ok (some p))

include later ok own

theorem ownProperty : t.heap.ownProperty o p.name = .ok (some p) := by
  obtain ⟨ok', own'⟩ := later.before.on ok own q
  exact later.during.ownProperty ok' own'

theorem isValid (value : p.value = .object f) (valid : h.isValid f = true) :
    t.heap.isValid f = true := by
  obtain ⟨ok', own'⟩ := later.before.on ok own q
  have there : (s.on q).heap.isValid f = true := by
    rw [← later.before.isValid ok own value valid]
    exact congrFun (s.heap.sameTable_rootAll _).isValid f
  exact later.during.isValid ok' own' value there

end LaterRead

/-- The object has a function as a property, and reads of the property go on giving it. -/
structure Heap.HoldsFunction (host : Host σ) (h : Heap) (o : Handle) (p : Property) (f : Handle) :
    Prop where
  /-- Later reads give the function, which is there. -/
  reads : ∀ s t, LaterRead host o p h o p.name s t →
    ∃ s', View.getProperty host o p.name s = (.ok (.object f), s') ∧
      s'.heap.isValid f = true ∧ s'.heap.ownProperty o p.name = .ok (some p)
  /-- What other reads add is another function. -/
  apart : ∀ q m entry s t v s', LaterRead host o p h q m s t →
    (s.heap.row q).instanceFunction? m = some entry →
    t.heap.ownProperty q m = .ok none → View.getProperty host q m s = (.ok v, s') →
    v ≠ .object f
  /-- Actions that do not change the property leave it alone, if the object is rooted. -/
  rooted : ∀ (α : Type) (act : Action σ α) (s : Session σ), act.Respects o p → Intact s.heap →
    s.heap.isValid o = true → .object o ∈ s.heap.stack → LeftAlone o p s.heap (act s).2.heap
  /-- Operations that do not write or delete the property do not change it, and neither does
  whatever is asked when it is read, if the functions of the host do not. -/
  operations : host.Respects o p →
    (∀ (α : Type) (i : Invocation α), i.Leaves o p → (i.perform host).Respects o p) ∧
      host.Minds o p ∧
      ∀ s t, Intact s.heap → Declined host o p.name s t → Respectful o p (s.on o).heap t.heap
  /-- The object stays while it is read. -/
  asked : ∀ s t, LeftAlone o p h s.heap → Declined host o p.name s t →
    Respectful o p (s.on o).heap t.heap → LaterRead host o p h o p.name s t

theorem Declined.respectful (declined : Declined host o name s t) (respects : host.Respects o p)
    (ok : Intact s.heap) : Respectful o p (s.on o).heap t.heap := by
  have intact : Intact (s.on o).heap := ok.congr (s.heap.sameTable_rootAll _)
  refine Consulted.keeps (J := fun u => Respectful o p (s.on o).heap u.heap) declined
    (fun act mem u w passed calm => ?_) .refl
  obtain ⟨f, rfl⟩ := Row.of_mem_askers mem
  have polled : (host.poll (.get (s.heap.row o).object name) f).Respects o p := by
    cases f with
    | none => exact fun _ _ => .refl
    | some f => exact respects f _
  have kept := (polled.keeps intact).state calm
  rwa [passed] at kept

theorem holdsFunction_of_own (lawful : host.Lawful) (ok : Intact h)
    (own : h.ownProperty o p.name = .ok (some p)) (value : p.value = .object f)
    (valid : h.isValid f = true) : h.HoldsFunction host o p f where
  reads s t later := by
    have there := later.ownProperty ok own
    have before := isValid_of_ownProperty (later.before.ownProperty ok own)
    obtain ⟨s', read, same⟩ := getProperty_of_declined before later.declined there
    rw [value] at read
    refine ⟨s', read, ?_, ?_⟩
    · rw [same.isValid]
      exact later.isValid ok own value valid
    · rw [Heap.ownProperty, same.object]
      exact there
  apart q m entry s t v s' later declared missing read := by
    obtain ⟨g, rfl, adds⟩ := addsFunction_of_getProperty lawful (later.before.intact ok) declared
      later.declined missing read
    intro same
    cases same
    exact Bool.false_ne_true (adds.fresh.symm.trans (later.isValid ok own value valid))
  rooted α act s respects ok valid mem := (respects s ok).leftAlone ok mem valid
  operations respects := ⟨fun α i leaves => leaves.respects respects, respects.minds,
    fun s t intact declined => declined.respectful respects intact⟩
  asked s t before declined calm := by
    obtain ⟨ok', own'⟩ := before.on ok own o
    have valid := isValid_of_ownProperty (before.ownProperty ok own)
    exact ⟨before, declined, calm.leftAlone ok' (mem_stack_rootAll List.mem_cons_self valid)
      (isValid_of_ownProperty own')⟩

/-- **The first read of a function makes it a property of the instance.**  If the class declares one
for its instances, no callback or getter answers and the instance has no property of the name by
then, a read that gives a value has made a new function, and added it with the attributes of its
entry.  From then on reads give this function, and it is there, as long as the instance stays and
its property is not written or deleted, whatever operations and collections run in between; and no
read adds the same function to another instance. -/
theorem first_read_adds_function (lawful : host.Lawful) (ok : Intact s.heap)
    (declared : (s.heap.row o).instanceFunction? name = some entry)
    (declined : Declined host o name s t) (missing : t.heap.ownProperty o name = .ok none)
    (read : View.getProperty host o name s = (.ok v, s')) :
    ∃ f, v = .object f ∧ t.heap.AddsFunction s'.heap o name entry f ∧
      s'.heap.HoldsFunction host o ⟨name, .object f, entry.attributes⟩ f := by
  obtain ⟨f, rfl, adds⟩ := addsFunction_of_getProperty lawful ok declared declined missing read
  have kept := ((Invocation.get o name).keeps_perform (enduring_within host s.heap)
    (lawful.keeps (unbrokenAbove_within s.heap))).state .refl
  have within : Within s.heap (View.getProperty host o name s).2.heap := kept
  rw [read] at within
  exact ⟨f, rfl, adds,
    holdsFunction_of_own lawful (within.intact ok) adds.ownProperty rfl adds.isValid⟩

/-- Nobody answers for a host whose functions do nothing. -/
theorem declined_idleHost (o : Handle) (name : Text) (s : Session Unit) :
    Declined idleHost o name s ((s.on o).hold (s.heap.row o).ofClass.toList) := by
  refine Consulted.of_silent fun act mem => ?_
  obtain ⟨f, rfl⟩ := Row.of_mem_askers mem
  cases f <;> rfl

/-- A class above which one without a shared prototype declares a function and has a `get`
callback. -/
def greeterClass : Class :=
  ⟨{ id := ⟨1⟩, version := 0, name := Text.ofString "Greeter", automatic := true, values := []
     functions := [], callbacks := fun _ => none },
    [{ id := ⟨0⟩, version := 0, name := Text.ofString "Loose", automatic := false, values := []
       functions := [⟨Text.ofString "hello", ⟨false, true, false⟩, ⟨1⟩⟩]
       callbacks := fun op => if op = .get then some ⟨0⟩ else none }]⟩

/-- A session with two instances. -/
def greeterSession : Session Unit :=
  ⟨after (new ⟨0⟩ .standard .synchronous)
    (turnsOf [.allocInstance greeterClass none ⟨⟨0⟩, 0, 0⟩, .pin (.object ⟨⟨0⟩, 2, 0⟩),
      .allocInstance greeterClass none ⟨⟨0⟩, 0, 0⟩, .pin (.object ⟨⟨0⟩, 3, 0⟩)]), [], ()⟩

/-- What a read of the function on the first instance leaves. -/
def greetedSession : Session Unit :=
  let t := (View.getAt idleHost ⟨⟨0⟩, 2, 0⟩ (Text.ofString "hello")
    (greeterSession.on ⟨⟨0⟩, 2, 0⟩)).2
  t.withHeap ((t.heap.cutStack 0).withResult (some (.object ⟨⟨0⟩, 4, 0⟩)))

/-- After that collections run, and the instance gets another property. -/
def laterSession : Session Unit :=
  greetedSession.withHeap (greetedSession.heap.after
    (turnsOf [.cutStack 0, .collect, .putOwn ⟨⟨0⟩, 2, 0⟩ ⟨Text.ofString "a", .null, .none⟩,
      .allocPlain, .collect]))

/-- Then the first instance has its function still, and the second one gets another. -/
theorem first_read_adds_function_greeter :
    View.getProperty idleHost ⟨⟨0⟩, 2, 0⟩ (Text.ofString "hello") greeterSession =
      (.ok (.object ⟨⟨0⟩, 4, 0⟩), greetedSession) ∧
    (View.getProperty idleHost ⟨⟨0⟩, 2, 0⟩ (Text.ofString "hello") laterSession).1 =
      .ok (.object ⟨⟨0⟩, 4, 0⟩) ∧
    ∃ g, (View.getProperty idleHost ⟨⟨0⟩, 3, 0⟩ (Text.ofString "hello") laterSession).1 =
      .ok (.object g) ∧ g ≠ ⟨⟨0⟩, 4, 0⟩ := by
  have first : View.getProperty idleHost ⟨⟨0⟩, 2, 0⟩ (Text.ofString "hello") greeterSession =
      (.ok (.object ⟨⟨0⟩, 4, 0⟩), greetedSession) :=
    getProperty_of_answer (by decide +kernel) (Prod.ext (by decide +kernel) rfl)
  have other : View.getProperty idleHost ⟨⟨0⟩, 3, 0⟩ (Text.ofString "hello") laterSession =
      (.ok (.object ⟨⟨0⟩, 5, 1⟩), _) :=
    getProperty_of_answer (by decide +kernel) (Prod.ext (by decide +kernel) rfl)
  have declares : ∀ {r : Row}, (r.instanceFunction? (Text.ofString "hello")).isSome = true →
      ∃ entry, r.instanceFunction? (Text.ofString "hello") = some entry :=
    Option.isSome_iff_exists.mp
  obtain ⟨entry, declared⟩ := declares (r := greeterSession.heap.row ⟨⟨0⟩, 2, 0⟩)
    (by decide +kernel)
  obtain ⟨entry', declared'⟩ := declares (r := laterSession.heap.row ⟨⟨0⟩, 3, 0⟩)
    (by decide +kernel)
  obtain ⟨f, same, adds, holds⟩ := first_read_adds_function lawful_idleHost
    ((Reachable.new _ _ _).after _).intact declared (declined_idleHost _ _ _) (by decide +kernel)
    first
  cases same
  have before : LeftAlone ⟨⟨0⟩, 2, 0⟩
      ⟨Text.ofString "hello", .object ⟨⟨0⟩, 4, 0⟩, entry.attributes⟩
      greetedSession.heap laterSession.heap := by
    refine ⟨_, respected_of_not_changes fun t mem changes => ?_, by decide +kernel, rfl⟩
    simp only [turnsOf, List.map_cons, List.map_nil, List.mem_cons, List.not_mem_nil,
      or_false] at mem
    have unlike : Text.ofString "a" ≠ Text.ofString "hello" := by decide
    rcases mem with rfl | rfl | rfl | rfl | rfl <;> try exact changes
    exact unlike changes.2.1
  obtain ⟨s', again, -⟩ := holds.reads laterSession _ ⟨before, declined_idleHost _ _ _, .refl⟩
  refine ⟨first, congrArg Prod.fst again, ⟨⟨0⟩, 5, 1⟩, congrArg Prod.fst other, fun equal => ?_⟩
  exact holds.apart ⟨⟨0⟩, 3, 0⟩ _ _ laterSession _ _ _ ⟨before, declined_idleHost _ _ _, .refl⟩
    declared' (by decide +kernel) other (congrArg Value.object equal)

end HostObjects
