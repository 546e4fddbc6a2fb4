import HostObjects.Heap.ClassPrototype
import HostObjects.Heap.Prototype
import HostObjects.Proofs.Effect
import HostObjects.Proofs.Heap.Lookup

/-!
# Steps of a heap

Whatever an operation does to the slots of a heap, it does in four kinds of
steps: it runs a collection, places an object, stores an object in the place of
another, or changes something beside the slots.  In between it roots what it has
made so far and unroots it again.  A property of heaps that each of these steps
keeps is `Steady`, and then every operation keeps it, in all the states on the way
and whether it fails or not.

A steady property may speak of the stack of roots: it is a family of properties,
one for each stack, so that rooting is a step from one member of the family to
another and an operation ends in the member it began in.  Where the stack does not
matter the property is `Stable`.  And where only objects without a class may be placed
it is `Classless`, which is enough for every operation but the one that makes
instances.

These speak of the table of objects.  A property that speaks of what lies beside it,
such as the persistent roots, or of the links from objects to their prototypes, has to
be told of the single steps: `Quiet` asks of each what operations do and no more, so it
is the weakest of these, and `Tracked` is for properties of whatever lies beside the
table and is changed by commands of its own.  A property that does not hold between
the steps, such as a bound that making room restores, can still hold between the
operations that building functions and class prototypes consists of (`Lasting`).

So an invariant is proved for a few steps, and each operation is looked at once.
-/

namespace HostObjects.Heap

/-- Two heaps with one table of objects: they differ beside it only. -/
structure SameTable (h h' : Heap) : Prop where
  id : h'.id = h.id
  slots : h'.slots = h.slots
  marks : h'.marks = h.marks
  free : h'.free = h.free
  used : h'.used = h.used

/-- A property of heaps that the four kinds of steps keep. -/
structure Stable (I : Heap → Prop) : Prop where
  /-- Collections keep it. -/
  collect : ∀ held h, I h → I (h.collect held)
  /-- Placements keep it. -/
  place : ∀ obj h, I h → I (h.place obj).2
  /-- Stores through a valid handle keep it. -/
  store : ∀ o obj new h, h.object o = .ok obj → I h → I (h.store o.index new)
  /-- Changes beside the table and the dead objects keep it. -/
  beside : ∀ h h', SameTable h h' → h'.reaped = h.reaped → I h → I h'

/-- A family of properties of heaps, one for each stack of roots: the four kinds of
steps keep each of them, as long as no object of a class is placed, and rooting leads
from one to another. -/
structure Classless (I : Array Value → Heap → Prop) : Prop where
  /-- Collections keep it. -/
  collect : ∀ S held h, I S h → I S (h.collect held)
  /-- Placements of objects without a class keep it. -/
  place : ∀ S obj h, obj.ofClass = none → I S h → I S (h.place obj).2
  /-- Stores of an object of the same class through a valid handle keep it. -/
  store : ∀ S o obj new h, h.object o = .ok obj → new.ofClass = obj.ofClass → I S h →
    I S (h.store o.index new)
  /-- Changes beside the table, the dead objects and the stack keep it. -/
  beside : ∀ S h h', SameTable h h' → h'.reaped = h.reaped → h'.stack = h.stack →
    I S h → I S h'
  /-- Rooting a value. -/
  push : ∀ S v h, I S h → I (S.push v) (h.pushRoot v)
  /-- Unrooting it. -/
  pop : ∀ S v h, I (S.push v) h → I S h.popRoot

/-- A family of properties of heaps, one for each stack of roots: the four kinds of
steps keep each of them, and rooting leads from one to another. -/
structure Steady (I : Array Value → Heap → Prop) : Prop where
  /-- Collections keep it. -/
  collect : ∀ S held h, I S h → I S (h.collect held)
  /-- Placements keep it. -/
  place : ∀ S obj h, I S h → I S (h.place obj).2
  /-- Stores of an object of the same class through a valid handle keep it. -/
  store : ∀ S o obj new h, h.object o = .ok obj → new.ofClass = obj.ofClass → I S h →
    I S (h.store o.index new)
  /-- Changes beside the table, the dead objects and the stack keep it. -/
  beside : ∀ S h h', SameTable h h' → h'.reaped = h.reaped → h'.stack = h.stack →
    I S h → I S h'
  /-- Rooting a value. -/
  push : ∀ S v h, I S h → I (S.push v) (h.pushRoot v)
  /-- Unrooting it. -/
  pop : ∀ S v h, I (S.push v) h → I S h.popRoot

/-- The object starts with one of the two prototypes that every heap has. -/
def LinksToIntrinsic (h : Heap) (obj : HostObject) : Prop :=
  obj.prototype = some h.objectPrototype ∨ obj.prototype = some h.functionPrototype

/-- A family of properties of heaps, one for each stack of roots, that the steps keep of
operations on properties and functions, while the classes `held` are held.  What they place
uses no class and links to an intrinsic prototype, and what they store differs in its
properties and private data only. -/
structure Quiet (held : ClassId → Bool) (I : Array Value → Heap → Prop) : Prop where
  /-- Collections keep it. -/
  collect : ∀ S h, I S h → I S (h.collect held)
  /-- Scheduling a collection keeps it. -/
  schedule : ∀ S h, I S h → I S { h with scheduled := true }
  /-- Placements of plain objects and of functions keep it. -/
  place : ∀ S obj h, obj.classes = [] → h.LinksToIntrinsic obj → I S h →
    I S (h.place obj).2
  /-- Stores of an object of the same class, behaviour and prototype keep it. -/
  store : ∀ S o obj new h, h.object o = .ok obj → new.ofClass = obj.ofClass →
    new.behaviour = obj.behaviour → new.prototype = obj.prototype → I S h →
    I S (h.store o.index new)
  /-- Rooting a value. -/
  push : ∀ S v h, I S h → I (S.push v) (h.pushRoot v)
  /-- Unrooting it. -/
  pop : ∀ S v h, I (S.push v) h → I S h.popRoot

/-- A family of properties of heaps, one for each stack of roots, that lasts through the
operations of which functions and class prototypes are made.  It need not hold between
the steps of these. -/
structure Lasting (held : ClassId → Bool) (I : Array Value → Heap → Prop) : Prop where
  /-- Allocating a function object. -/
  alloc : ∀ S name call h, I S h → I S (alloc held (h.functionObject name call) h).2
  /-- Defining an own property. -/
  defineOwn : ∀ S o p, Preserves (I S) (defineOwn held o p)
  /-- Rooting a value. -/
  push : ∀ S v h, I S h → I (S.push v) (h.pushRoot v)
  /-- Unrooting it. -/
  pop : ∀ S v h, I (S.push v) h → I S h.popRoot

/-- Two heaps with the same persistent roots, pins and external edges. -/
structure SameLedger (h h' : Heap) : Prop where
  roots : h'.roots = h.roots
  freeRoots : h'.freeRoots = h.freeRoots
  pins : h'.pins = h.pins
  edges : h'.edges = h.edges

/-- A property of heaps that the steps keep, and changes that leave the table, the dead
objects, the persistent roots, the pins and the edges alone. -/
structure Tracked (I : Heap → Prop) : Prop where
  /-- Collections keep it. -/
  collect : ∀ held h, I h → I (h.collect held)
  /-- Placements keep it. -/
  place : ∀ obj h, I h → I (h.place obj).2
  /-- Stores through a valid handle keep it. -/
  store : ∀ o obj new h, h.object o = .ok obj → I h → I (h.store o.index new)
  /-- Changes of nothing else than the stack, the shared prototypes, the host roots and
  the mode keep it. -/
  beside : ∀ h h', SameTable h h' → SameLedger h h' → h'.reaped = h.reaped → I h → I h'

theorem SameTable.refl (h : Heap) : SameTable h h := ⟨rfl, rfl, rfl, rfl, rfl⟩

theorem SameTable.object {h h' : Heap} (same : SameTable h h') : h'.object = h.object :=
  object_congr same.id same.slots

theorem SameTable.isValid {h h' : Heap} (same : SameTable h h') :
    h'.isValid = h.isValid :=
  isValid_congr same.id same.slots

theorem place_sameLedger (h : Heap) (obj : HostObject) : SameLedger h (h.place obj).2 := by
  unfold place
  split <;> exact ⟨rfl, rfl, rfl, rfl⟩

/-- A stable property holds whatever the stack is. -/
theorem Stable.steady {I : Heap → Prop} (stable : Stable I) : Steady fun _ => I where
  collect _ := stable.collect
  place _ := stable.place
  store _ o obj new h found _ := stable.store o obj new h found
  beside _ h h' same reaped _ := stable.beside h h' same reaped
  push _ v h := stable.beside h (h.pushRoot v) ⟨rfl, rfl, rfl, rfl, rfl⟩ rfl
  pop _ _ h := stable.beside h h.popRoot ⟨rfl, rfl, rfl, rfl, rfl⟩ rfl

theorem Steady.classless {I : Array Value → Heap → Prop} (steady : Steady I) :
    Classless I where
  collect := steady.collect
  place S obj h _ := steady.place S obj h
  store := steady.store
  beside := steady.beside
  push := steady.push
  pop := steady.pop

/-- An object that uses no class has none. -/
theorem ofClass_of_classes {obj : HostObject} (plain : obj.classes = []) :
    obj.ofClass = none := by
  have none := (List.append_eq_nil_iff.mp plain).1
  rwa [Option.toList_eq_nil_iff] at none

theorem Classless.quiet {I : Array Value → Heap → Prop} (classless : Classless I)
    (held : ClassId → Bool) : Quiet held I where
  collect S := classless.collect S held
  schedule S h := classless.beside S h _ ⟨rfl, rfl, rfl, rfl, rfl⟩ rfl rfl
  place S obj h plain _ := classless.place S obj h (ofClass_of_classes plain)
  store S o obj new h found same _ _ := classless.store S o obj new h found same
  push := classless.push
  pop := classless.pop

theorem Tracked.quiet {I : Heap → Prop} (tracked : Tracked I) (held : ClassId → Bool) :
    Quiet held fun _ => I where
  collect _ := tracked.collect held
  schedule _ h := tracked.beside h _ ⟨rfl, rfl, rfl, rfl, rfl⟩ ⟨rfl, rfl, rfl, rfl⟩ rfl
  place _ obj h _ _ := tracked.place obj h
  store _ o obj new h found _ _ _ := tracked.store o obj new h found
  push _ v h := tracked.beside h (h.pushRoot v) ⟨rfl, rfl, rfl, rfl, rfl⟩
    ⟨rfl, rfl, rfl, rfl⟩ rfl
  pop _ _ h := tracked.beside h h.popRoot ⟨rfl, rfl, rfl, rfl, rfl⟩ ⟨rfl, rfl, rfl, rfl⟩ rfl

variable {I : Heap → Prop} {α : Type}

/-! ### Reading and rooting -/

/-- A reading changes nothing. -/
theorem preserves_reading (f : Heap → Except Fault α) : Preserves I (reading f) :=
  Preserves.of_state fun _ hs => hs

/-- What is read is read of the state. -/
theorem meets_reading (f : Heap → Except Fault α) :
    Meets I (reading f) (fun a h => I h ∧ f h = .ok a) I := by
  refine fun h hs => ⟨fun a h' run => ?_, fun e h' run => ?_⟩
  · obtain ⟨read, rfl⟩ := Prod.mk.inj run
    exact ⟨hs, read⟩
  · obtain ⟨-, rfl⟩ := Prod.mk.inj run
    exact hs

/-- Setting a prototype is the one change of an object that changes its link. -/
theorem preserves_setPrototype
    (relink : ∀ o obj new h, h.object o = .ok obj → new.ofClass = obj.ofClass →
      new.behaviour = obj.behaviour → I h → I (h.store o.index new)) (o : Handle)
    (p : Option Handle) :
    Preserves I (setPrototype o p) := by
  refine (preserves_reading _).bind fun _ => (preserves_reading _).bind fun _ => ?_
  refine Preserves.of_state fun h hs => ?_
  unfold Heap.change
  cases found : h.object o with
  | ok obj => exact relink o obj _ h found rfl rfl hs
  | error e => exact hs

namespace Lasting

variable {I : Array Value → Heap → Prop} {held : ClassId → Bool} (lasting : Lasting held I)
include lasting

theorem rooting {S : Array Value} {v : Value} {act : HeapM α}
    (keep : Preserves (I (S.push v)) act) : Preserves (I S) (rooting v act) :=
  Preserves.of_state fun h hs =>
    lasting.pop S v (act (h.pushRoot v)).2 (keep.state (lasting.push S v h hs))

variable (S : Array Value)

theorem allocFunction (name : Text) (call : HostFunction) :
    Preserves (I S) (allocFunction held name call) := by
  refine Meets.bind Meets.get fun start => Meets.bind (Meets.of_state ?_) fun f => ?_
  · rintro h ⟨hs, rfl⟩
    exact lasting.alloc S name call start hs
  · exact (lasting.rooting (lasting.defineOwn _ f _)).bind fun _ => Preserves.pure _

theorem populate (proto : Handle) (entries : List StaticFunction) :
    Preserves (I S) (populate held proto entries) := by
  induction entries with
  | nil => exact Preserves.pure _
  | cons entry rest ih =>
      refine (lasting.allocFunction S _ _).bind fun f => ?_
      exact (lasting.rooting (lasting.defineOwn _ proto _)).bind fun _ => ih

/-- Class prototypes link to those of their parents, and are recorded. -/
theorem prototypeOf
    (link : ∀ parent, Preserves (I S) (Heap.alloc held (.ordinary (some parent))))
    (record : ∀ id proto h, I S h → I S (h.recordPrototype id proto))
    (chain : List Descriptor) : Preserves (I S) (prototypeOf held chain) := by
  induction chain with
  | nil => exact Preserves.get.bind fun _ => Preserves.pure _
  | cons d ancestors ih =>
      refine Preserves.get.bind fun h => ?_
      refine Preserves.ite (fun _ => Preserves.pure _) fun _ => ?_
      cases h.classPrototype? d.id with
      | some proto => exact Preserves.pure _
      | none =>
          refine ih.bind fun parent => (link parent).bind fun proto => ?_
          refine (lasting.rooting (lasting.populate _ proto _)).bind fun _ => ?_
          exact (Meets.modify (record d.id proto)).bind fun _ => Preserves.pure _

end Lasting

namespace Quiet

variable {I : Array Value → Heap → Prop} {held : ClassId → Bool} (quiet : Quiet held I)
include quiet

/-- The steps keep the identity of the heap as well. -/
theorem withId (id : HeapId) : Quiet held fun S h => I S h ∧ h.id = id where
  collect S h hs := ⟨quiet.collect S h hs.1, hs.2⟩
  schedule S h hs := ⟨quiet.schedule S h hs.1, hs.2⟩
  place S obj h plain links hs :=
    ⟨quiet.place S obj h plain links hs.1, (place_id h obj).trans hs.2⟩
  store S o obj new h found same behaviour link hs :=
    ⟨quiet.store S o obj new h found same behaviour link hs.1, hs.2⟩
  push S v h hs := ⟨quiet.push S v h hs.1, hs.2⟩
  pop S v h hs := ⟨quiet.pop S v h hs.1, hs.2⟩

variable (S : Array Value)

/-! ### Objects and their properties -/

theorem change (o : Handle) (f : HostObject → HostObject)
    (sameClass : ∀ obj, (f obj).ofClass = obj.ofClass)
    (sameBehaviour : ∀ obj, (f obj).behaviour = obj.behaviour)
    (sameLink : ∀ obj, (f obj).prototype = obj.prototype) : Preserves (I S) (change o f) := by
  refine Preserves.of_state fun h hs => ?_
  unfold Heap.change
  cases found : h.object o with
  | ok obj =>
      exact quiet.store S o obj (f obj) h found (sameClass obj) (sameBehaviour obj)
        (sameLink obj) hs
  | error e => exact hs

theorem answerThreshold (bytes : Nat) {h : Heap} (hs : I S h) :
    I S (h.answerThreshold held bytes) := by
  unfold Heap.answerThreshold
  split
  · split
    · exact quiet.collect S h hs
    · exact quiet.schedule S h hs
  · exact hs

theorem answerLimit (bytes : Nat) {h : Heap} (hs : I S h) :
    I S (h.answerLimit held bytes) := by
  unfold Heap.answerLimit
  split
  · exact quiet.collect S h hs
  · exact hs

theorem makeRoom (bytes : Nat) : Preserves (I S) (makeRoom held bytes) := by
  refine Preserves.of_state fun h hs => ?_
  have room := quiet.answerLimit S bytes (quiet.answerThreshold S bytes hs)
  unfold Heap.makeRoom
  dsimp only
  split <;> exact room

/-- Any object may be allocated that may be placed. -/
theorem alloc {obj : HostObject} (place : ∀ h, I S h → I S (h.place obj).2) :
    Preserves (I S) (alloc held obj) :=
  (quiet.makeRoom S _).bind fun _ => Preserves.modifyGet place

/-- Making room leaves the intrinsic prototypes where they are, so an object that links to
one of them when it is made still does when it is placed. -/
theorem alloc_of_links {obj : HostObject}
    (place : ∀ h, h.LinksToIntrinsic obj → I S h → I S (h.place obj).2) {h : Heap}
    (links : h.LinksToIntrinsic obj) (hs : I S h) : I S (Heap.alloc held obj h).2 := by
  have keep : Preserves (fun h' => I S h' ∧ h'.id = h.id) (Heap.alloc held obj) := by
    refine (quiet.withId h.id).alloc S ?_
    rintro h' ⟨hs', same⟩
    refine ⟨place h' ?_ hs', (place_id h' obj).trans same⟩
    unfold LinksToIntrinsic objectPrototype functionPrototype
    rw [same]
    exact links
  exact (keep.state ⟨hs, rfl⟩).1

theorem allocPlain : Preserves (I S) (allocPlain held) := by
  refine Preserves.of_state fun h hs => ?_
  unfold Heap.allocPlain
  rw [get_bind_apply]
  exact quiet.alloc_of_links S (fun h => quiet.place S _ h rfl) (Or.inl rfl) hs

theorem defineOwn (o : Handle) (p : Property) : Preserves (I S) (defineOwn held o p) := by
  refine (preserves_reading _).bind fun _ => (preserves_reading _).bind fun old => ?_
  cases old with
  | some _ => exact quiet.change S o _ (fun _ => rfl) (fun _ => rfl) fun _ => rfl
  | none =>
      exact (quiet.makeRoom S _).bind fun _ =>
        quiet.change S o _ (fun _ => rfl) (fun _ => rfl) fun _ => rfl

theorem putOwn (o : Handle) (p : Property) : Preserves (I S) (putOwn held o p) := by
  refine (preserves_reading _).bind fun _ => (preserves_reading _).bind fun old => ?_
  cases old with
  | some old =>
      refine Preserves.ite (fun _ => Preserves.pure _) fun _ => ?_
      exact (quiet.change S o (withUpdated _) (fun _ => rfl) (fun _ => rfl)
        fun _ => rfl).bind fun _ => Preserves.pure _
  | none => exact (quiet.defineOwn S o p).bind fun _ => Preserves.pure _

theorem deleteOwn (o : Handle) (name : Text) : Preserves (I S) (deleteOwn o name) := by
  refine (preserves_reading _).bind fun old => ?_
  cases old with
  | none => exact Preserves.pure _
  | some old =>
      refine Preserves.ite (fun _ => Preserves.pure _) fun _ => ?_
      exact (quiet.change S o (withRemoved name) (fun _ => rfl) (fun _ => rfl)
        fun _ => rfl).bind fun _ => Preserves.pure _

theorem setPrivate (o : Handle) (data : Option PrivateData) :
    Preserves (I S) (setPrivate o data) :=
  quiet.change S o _ (fun _ => rfl) (fun _ => rfl) fun _ => rfl

/-! ### Functions and class prototypes -/

omit S in
theorem lasting : Lasting held I where
  alloc S _ _ _ hs := quiet.alloc_of_links S (fun h => quiet.place S _ h rfl) (Or.inr rfl) hs
  defineOwn S o p := quiet.defineOwn S o p
  push := quiet.push
  pop := quiet.pop

theorem allocFunction (name : Text) (call : HostFunction) :
    Preserves (I S) (allocFunction held name call) :=
  quiet.lasting.allocFunction S name call

theorem populate (proto : Handle) (entries : List StaticFunction) :
    Preserves (I S) (populate held proto entries) :=
  quiet.lasting.populate S proto entries

/-- Class prototypes link to those of their parents, and are recorded. -/
theorem prototypeOf
    (link : ∀ parent h, I S h → I S (h.place (.ordinary (some parent))).2)
    (record : ∀ id proto h, I S h → I S (h.recordPrototype id proto))
    (chain : List Descriptor) : Preserves (I S) (prototypeOf held chain) :=
  quiet.lasting.prototypeOf S (fun parent => quiet.alloc S (link parent)) record chain

end Quiet

/-! ### Classless and steady properties -/

namespace Classless

variable {I : Array Value → Heap → Prop} (classless : Classless I) (held : ClassId → Bool)
include classless

variable (S : Array Value)

theorem alloc (obj : HostObject) (plain : obj.ofClass = none) :
    Preserves (I S) (alloc held obj) :=
  (classless.quiet held).alloc S fun h => classless.place S obj h plain

theorem allocPlain : Preserves (I S) (allocPlain held) := (classless.quiet held).allocPlain S

theorem defineOwn (o : Handle) (p : Property) : Preserves (I S) (defineOwn held o p) :=
  (classless.quiet held).defineOwn S o p

theorem putOwn (o : Handle) (p : Property) : Preserves (I S) (putOwn held o p) :=
  (classless.quiet held).putOwn S o p

theorem deleteOwn (o : Handle) (name : Text) : Preserves (I S) (deleteOwn o name) :=
  (classless.quiet fun _ => false).deleteOwn S o name

theorem setPrototype (o : Handle) (p : Option Handle) :
    Preserves (I S) (setPrototype o p) :=
  preserves_setPrototype (fun o obj new h found same _ =>
    classless.store S o obj new h found same) o p

theorem setPrivate (o : Handle) (data : Option PrivateData) :
    Preserves (I S) (setPrivate o data) :=
  (classless.quiet fun _ => false).setPrivate S o data

theorem allocFunction (name : Text) (call : HostFunction) :
    Preserves (I S) (allocFunction held name call) :=
  (classless.quiet held).allocFunction S name call

theorem prototypeOf (chain : List Descriptor) : Preserves (I S) (prototypeOf held chain) :=
  (classless.quiet held).prototypeOf S (fun _ h => classless.place S _ h rfl)
    (fun _ _ h => classless.beside S h _ ⟨rfl, rfl, rfl, rfl, rfl⟩ rfl rfl) chain

end Classless

theorem Steady.allocInstance {I : Array Value → Heap → Prop} (steady : Steady I)
    (held : ClassId → Bool) (S : Array Value) (c : Class) (data : Option PrivateData)
    (proto : Handle) : Preserves (I S) (allocInstance held c data proto) :=
  (steady.classless.quiet held).alloc S (steady.place S _)

end HostObjects.Heap
