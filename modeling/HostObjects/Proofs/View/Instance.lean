import HostObjects.Proofs.Heap.AsBuilt
import HostObjects.Proofs.View.Lookup

/-!
# Where an instance finds its functions

Three parts of the program split a class chain where the first class without an automatic
prototype comes: the building of prototypes, the functions that are looked for on the
instance, and the instance test of constructors, which goes by prototypes alone.  They agree.

The functions that a chain declares are those of the classes before that place, which are
properties of the prototypes on the chain of an instance (`Instantiates`), and those of the
others, which are found on the instance (`SplitsFunctions`).  And the prototype that a
constructor has is on the chain exactly for the classes before that place
(`hasInstance_of_constructs`).  `instances_share_prefix` says so of every state of a run, in
whatever order prototypes were built in it, as long as it left them as they were built.
-/

namespace HostObjects

open Heap

/-! ### The functions of a class chain -/

namespace Class

variable {c : Class} {cs : List Class}

/-- The static functions that look-ups can find in classes, each with the class that
declares it. -/
def declaredBy (ds : List Descriptor) : List (ClassId × StaticFunction) :=
  ds.flatMap fun d => d.firstFunctions.map fun entry => (d.id, entry)

/-- What the classes of the chain declare. -/
def functions (c : Class) : List (ClassId × StaticFunction) := declaredBy c.chain

/-- What is declared before the first class without an automatic prototype. -/
def sharedFunctions (c : Class) : List (ClassId × StaticFunction) :=
  declaredBy c.automaticPrefix

/-- What is declared from that class on. -/
def instanceFunctions (c : Class) : List (ClassId × StaticFunction) := declaredBy c.onInstance

/-- Look-ups find the first entry of a name. -/
theorem findSome?_function (ds : List Descriptor) (name : Text) :
    (ds.findSome? fun d => d.function? name) =
      ((declaredBy ds).find? fun e => e.2.name == name).map Prod.snd := by
  induction ds with
  | nil => rfl
  | cons d ds ih =>
      have own : ((d.firstFunctions.map fun entry => (d.id, entry)).find? fun e =>
          e.2.name == name).map Prod.snd = d.function? name := by
        rw [← d.firsts_firstFunctions.first name, List.find?_map, Option.map_map]
        exact Option.map_id'
      rw [declaredBy, List.flatMap_cons, List.find?_append, List.findSome?_cons, ih, ← own]
      cases List.find? _ (d.firstFunctions.map _) <;> rfl

/-- The functions of the chain are on the prototypes or on the instance, and none is on
both. -/
structure SplitsFunctions (c : Class) : Prop where
  whole : c.functions = c.sharedFunctions ++ c.instanceFunctions
  apart : ∀ e ∈ c.sharedFunctions, e ∉ c.instanceFunctions
  /-- What look-ups find on the instance. -/
  found : ∀ name, (c.onInstance.findSome? fun d => d.function? name) =
    (c.instanceFunctions.find? fun e => e.2.name == name).map Prod.snd

theorem splitsFunctions (registry : Registry cs) (mem : c ∈ cs) : c.SplitsFunctions where
  whole := by rw [functions, chain_eq_append, declaredBy, List.flatMap_append]; rfl
  apart e shared onInstance := by
    obtain ⟨d, memd, entry⟩ := List.mem_flatMap.mp shared
    obtain ⟨d', memd', entry'⟩ := List.mem_flatMap.mp onInstance
    obtain ⟨_, -, rfl⟩ := List.mem_map.mp entry
    obtain ⟨_, -, same⟩ := List.mem_map.mp entry'
    have nodup := registry.nodup_ids mem
    rw [chain_eq_append, List.map_append] at nodup
    exact List.disjoint_of_nodup_append nodup (List.mem_map_of_mem memd)
      (List.mem_map.mpr ⟨d', memd', (Prod.mk.inj same).1⟩)
  found := findSome?_function c.onInstance

end Class

/-! ### Making instances and constructors -/

variable {σ α : Type} {host : Host σ} {s s' : Session σ} {cs : List Class} {b c : Class}
  {changed : Handle → Prop} {f o p proto : Handle} {h : Heap} {obj : HostObject}
  {name : Text} {rest protos : List Handle}

/-- The session after the host has let dead objects go. -/
def Session.letting (s : Session σ) (host : Host σ) (rs : List Reaped) : Session σ :=
  { s with host := letAllGo host.toReclaimer rs s.host }

/-- The class and those above it are held, and who holds a class holds those above it; no
finalizer changes that. -/
structure Host.Holds (host : Host σ) (cs : List Class) (c : Class) (s : Session σ) : Prop where
  chain : ∀ rs, ∀ d ∈ c.chain, Action.heldOutside host (s.letting host rs) d.id = true
  above : ∀ rs, HoldsAbove (Action.heldOutside host (s.letting host rs)) cs

theorem Host.Holds.settle (holds : host.Holds cs c s) (h : Heap) :
    host.Holds cs c (Action.settle host { s with heap := h }) := by
  have more : ∀ rs, Action.heldOutside host
      ((Action.settle host { s with heap := h }).letting host rs) =
        Action.heldOutside host (s.letting host (h.reaped ++ rs)) := by
    intro rs
    rw [settle_eq]
    unfold Action.heldOutside Session.letting letAllGo
    rw [List.foldl_append]
  constructor
  · intro rs
    rw [more]
    exact holds.chain _
  · intro rs
    rw [more]
    exact holds.above _

/-- An operation that may collect ends as it does in the heap of the session. -/
theorem meets_allocating {P : Heap → Prop} {Q : α → Heap → Prop} {E : Heap → Prop}
    {act : (ClassId → Bool) → HeapM α}
    (settled : ∀ a h, Q a h → Q a { h with reaped := [] })
    (meets : ∀ held, HoldsAbove held cs → (∀ d ∈ c.chain, held d.id = true) →
      Meets P (act held) Q E) :
    Meets (fun s => P s.heap ∧ host.Holds cs c s) (Action.allocating host act)
      (fun a s => Q a s.heap ∧ host.Holds cs c s) fun _ => True := by
  intro s ⟨hs, holds⟩
  refine ⟨fun a s' run => ?_, fun _ _ _ => trivial⟩
  have ends := (meets (Action.heldOutside host s) (holds.above []) (holds.chain []) _ hs).1
  rw [allocating_apply] at run
  obtain ⟨answer, rfl⟩ := Prod.mk.inj run
  refine ⟨?_, holds.settle _⟩
  rw [settle_eq]
  exact settled a _ (ends a _ (Prod.ext answer rfl))

namespace Heap

theorem AsBuilt.settled (ok : AsBuilt cs changed h) : AsBuilt cs changed { h with reaped := [] } :=
  ok.beside ⟨rfl, rfl, rfl, rfl, rfl⟩ rfl

/-- The prototype of a class is asked for, and built if need be. -/
theorem meets_prototypeOf_view (registry : Registry cs) (mem : c ∈ cs) :
    Meets (fun s => AsBuilt cs changed s.heap ∧ host.Holds cs c s)
      (Action.allocating host fun held => prototypeOf held c.chain)
      (fun p s => (AsBuilt cs changed s.heap ∧ s.heap.instancePrototype? c = some p) ∧
        host.Holds cs c s) fun _ => True :=
  meets_allocating (fun _ _ ⟨ok, start⟩ => ⟨ok.settled, start⟩) fun _ above inUse =>
    meets_prototypeOf_asBuilt registry above mem (List.suffix_refl _) inUse

end Heap

/-- **An instance that is made starts with the prototype of its class.** -/
theorem meets_makeInstance (registry : Registry cs) (mem : c ∈ cs) (data : Option PrivateData) :
    Meets (fun s => AsBuilt cs changed s.heap ∧ host.Holds cs c s)
      (View.makeInstance host c data)
      (fun o s => AsBuilt cs changed s.heap ∧ s.heap.StartsAs o c) fun _ => True := by
  have asked : Meets (fun s => AsBuilt cs changed s.heap ∧ host.Holds cs c s)
      (Action.allocating host fun held => prototypeOf held c.chain) _ fun _ => True :=
    meets_prototypeOf_view registry mem
  have placed : ∀ p, Meets
      (fun s => (AsBuilt cs changed s.heap ∧ s.heap.instancePrototype? c = some p) ∧
        host.Holds cs c s)
      (Action.allocating host fun held => allocInstance held c data p)
      (fun o s => (AsBuilt cs changed s.heap ∧ s.heap.StartsAs o c) ∧ host.Holds cs c s)
      fun _ => True :=
    fun p => meets_allocating (fun _ _ ⟨ok, starts⟩ => ⟨ok.settled, starts⟩) fun _ above inUse =>
      meets_allocInstance_asBuilt registry above mem inUse data
  have body := asked.bind placed
  intro s hs
  refine ⟨fun o s' run => ?_, fun _ _ _ => trivial⟩
  unfold View.makeInstance View.orDiscard at run
  rw [tryCatch_apply] at run
  split at run
  · next done =>
      cases run
      exact ((body s hs).1 _ _ done).1
  · cases run

/-- The object makes instances of the class, and has the prototype as its property. -/
def Heap.Constructs (h : Heap) (f : Handle) (c : Class) (proto : Handle) : Prop :=
  ∃ obj, h.object f = .ok obj ∧ obj.ofClass = none ∧
    (∃ construct, obj.behaviour = .constructor (some c) construct) ∧
    Property.find? obj.properties View.prototypeKey =
      some ⟨View.prototypeKey, .object proto, .constructorPrototype⟩

/-- **A constructor that is made has the prototype of its class.** -/
theorem constructs_of_makeConstructor (registry : Registry cs) (mem : c ∈ cs)
    (ok : AsBuilt cs changed s.heap) (holds : host.Holds cs c s) {construct : Option HostFunction}
    (made : View.makeConstructor host (some c) construct s = (.ok f, s')) :
    AsBuilt cs changed s'.heap ∧ ∃ proto, s'.heap.instancePrototype? c = some proto ∧
      s'.heap.Constructs f c proto := by
  have whole := made
  unfold View.makeConstructor View.constructedPrototype at made
  obtain ⟨proto, s₁, asked, made⟩ := of_bind_ok made
  obtain ⟨⟨ok₁, start⟩, holds₁⟩ :=
    (meets_prototypeOf_view registry mem s ⟨ok, holds⟩).1 proto s₁ asked
  obtain ⟨h₁, answer, -⟩ := of_allocating asked
  obtain ⟨link, found⟩ := object_makeConstructor ok.chained.intact answer whole
  -- The class is held all along, so its prototype stays the one that was asked for.
  let I (h : Heap) : Prop := AsBuilt cs changed h ∧ h.instancePrototype? c = some proto
  have settled : ∀ f h, I h ∧ Spare f h → I { h with reaped := [] } ∧
      Spare f { h with reaped := [] } :=
    fun _ _ ⟨⟨ok, start⟩, spare⟩ => ⟨⟨ok.settled, start⟩, spare.unrecorded, spare.extrinsic⟩
  have allocated : Meets (fun s => I s.heap ∧ host.Holds cs c s)
      (Action.allocating host fun held => do
        let h ← get
        alloc held ⟨some h.functionPrototype, none, .constructor (some c) construct, [], none⟩)
      (fun f s => (I s.heap ∧ Spare f s.heap) ∧ host.Holds cs c s) fun _ => True := by
    refine meets_allocating (Q := fun f h => I h ∧ Spare f h) (E := fun _ => True) settled
      fun held above inUse => ?_
    have built : Meets (AsBuilt cs changed)
        (do
          let h ← get
          alloc held ⟨some h.functionPrototype, none, .constructor (some c) construct, [], none⟩)
        _ _ :=
      meets_allocConstructor_asBuilt registry above (fun _ same => Option.some.inj same ▸ mem)
        construct
    have kept : Preserves (fun h => h.instancePrototype? c = some proto)
        (do
          let h ← get
          alloc held ⟨some h.functionPrototype, none, .constructor (some c) construct, [], none⟩) :=
      Preserves.get.bind fun _ => (tabled_start inUse).alloc fun _ mem' =>
        List.mem_singleton.mp mem' ▸ inUse
    exact (built.and kept).imp (fun _ both => both)
      (fun _ _ ⟨⟨ok, spare⟩, start⟩ => ⟨⟨ok, start⟩, spare⟩) fun _ _ => trivial
  have defined : ∀ f, Meets (fun s => (I s.heap ∧ Spare f s.heap) ∧ host.Holds cs c s)
      (Action.allocating host fun held =>
        defineOwn held f ⟨View.prototypeKey, .object proto, .constructorPrototype⟩)
      (fun _ s => (I s.heap ∧ Spare f s.heap) ∧ host.Holds cs c s) fun _ => True :=
    fun f => meets_allocating (P := fun h => I h ∧ Spare f h) (fun _ => settled f)
      fun held above inUse => ((sparing_asBuilt registry above).and (tabled_start inUse)).defineOwn
        f _
  have pushed : ∀ f, Meets (fun s => (I s.heap ∧ Spare f s.heap) ∧ host.Holds cs c s)
      (Action.push (.object f)) (fun _ s => (I s.heap ∧ Spare f s.heap) ∧ host.Holds cs c s)
      fun _ => True := by
    intro f s ⟨⟨⟨ok, start⟩, spare⟩, holds⟩
    refine ⟨fun _ s' run => ?_, fun _ _ _ => trivial⟩
    cases run
    exact ⟨⟨⟨ok.beside ⟨rfl, rfl, rfl, rfl, rfl⟩ rfl, start⟩, spare.unrecorded, spare.extrinsic⟩,
      holds.chain, holds.above⟩
  have rest := allocated.bind fun f => (pushed f).bind fun _ => (defined f).bind fun _ =>
    Meets.pure (a := f) (Q := fun _ (s : Session σ) => I s.heap) fun _ post => post.1.1
  obtain ⟨ok', start'⟩ := (rest s₁ ⟨⟨ok₁, start⟩, holds₁⟩).1 f s' made
  exact ⟨ok', proto, start', _, found, rfl, ⟨construct, rfl⟩, rfl⟩

/-! ### The chain of an instance -/

/-- The object has no class, and its properties are those that the entries declare: one for
each, in order, with a function that asks the callback of the entry. -/
def Heap.Offers (h : Heap) (p : Handle) (entries : List StaticFunction) : Prop :=
  ∃ obj, h.object p = .ok obj ∧ obj.ofClass = none ∧
    List.Forall₂ (fun (entry : StaticFunction) q => ∃ g,
      q = ⟨entry.name, .object g, entry.attributes⟩ ∧ h.Calls g entry.call)
      entries obj.properties

theorem Heap.BuiltAs.offers {parent : Handle} {entries : List StaticFunction}
    (built : h.BuiltAs p parent entries) : h.Offers p entries := by
  obtain ⟨obj, found, plain, -, carried⟩ := built
  refine ⟨obj, found, plain, carried.imp ?_⟩
  rintro entry q ⟨g, gobj, rfl, there, runs⟩
  exact ⟨g, rfl, calls_of_runs there runs⟩

/-- The prototype chain of the instance goes through the prototypes of the classes before the
first one without, in order, and each has the functions of its class and nothing else.  No
other class of the chain has its prototype there. -/
structure Heap.Instantiates (h : Heap) (c : Class) (o : Handle) (protos : List Handle) :
    Prop where
  chain : PrototypeChain h o (o :: (protos ++ [h.objectPrototype]))
  shared : List.Forall₂ (fun d p => h.classPrototype? d.id = some p ∧
    h.Offers p d.firstFunctions) c.automaticPrefix protos
  last : h.Offers h.objectPrototype []
  elsewhere : ∀ d ∈ c.onInstance, ∀ p, h.classPrototype? d.id = some p →
    p ∉ protos ++ [h.objectPrototype]

/-- A list of prototypes, one for each class, has the prototypes of these classes. -/
theorem mem_prototypes_iff {ds : List Descriptor}
    (each : List.Forall₂ (fun d p => h.classPrototype? d.id = some p) ds protos) :
    p ∈ protos ↔ ∃ d ∈ ds, h.classPrototype? d.id = some p := by
  have same : ds.map (fun d => h.classPrototype? d.id) = protos.map some := by
    rw [← List.forall₂_eq_eq_eq, List.forall₂_map_left_iff, List.forall₂_map_right_iff]
    exact each
  have there : p ∈ protos ↔ some p ∈ protos.map some := by simp
  rw [there, ← same, List.mem_map]

/-- **The chain of an instance is that of its class**, up to the first class without a
prototype. -/
theorem Heap.AsBuilt.instantiates (registry : Registry cs) (ok : AsBuilt cs changed h)
    (unchanged : Unchanged changed c h) (starts : h.StartsAs o c) :
    ∃ protos, h.Instantiates c o protos := by
  obtain ⟨protos, walk, each⟩ := ok.exists_chain registry unchanged starts
  obtain ⟨obj, -, found, ofClass, -⟩ := starts
  have mem : c ∈ cs := ok.known o obj found c (List.mem_append_left _ (by simp [ofClass]))
  refine ⟨protos, walk, each.imp fun _ _ ⟨there, _, built⟩ => ⟨there, built.offers⟩, ?_, ?_⟩
  · obtain ⟨robj, foundr, plain, -, nothing⟩ := ok.root unchanged.last
    exact ⟨robj, foundr, plain, nothing ▸ .nil⟩
  · intro d memd p recorded
    have nodup := registry.nodup_ids mem
    rw [Class.chain_eq_append, List.map_append] at nodup
    rw [List.mem_append, List.mem_singleton, not_or]
    refine ⟨fun there => ?_, (ok.distinct.extrinsic _ _ (mem_of_classPrototype? recorded)).1⟩
    obtain ⟨d', memd', recorded'⟩ :=
      (mem_prototypes_iff (each.imp fun _ _ both => both.1)).mp there
    have same := ok.distinct.apart _ _ p (mem_of_classPrototype? recorded)
      (mem_of_classPrototype? recorded')
    exact List.disjoint_of_nodup_append nodup (List.mem_map_of_mem memd')
      (List.mem_map.mpr ⟨d, memd, same⟩)

theorem Heap.PrototypeChain.of_append_singleton {q : Handle}
    (walk : PrototypeChain h o (o :: (rest ++ [q]))) :
    ∃ p, h.prototype o = .ok (some p) ∧ PrototypeChain h p (rest ++ [q]) := by
  cases rest with
  | nil => exact ⟨q, walk.of_cons⟩
  | cons p rest => exact ⟨p, walk.of_cons⟩

/-- Class chains are so short that look-ups come to the end of a chain of their prototypes. -/
theorem length_prototypes_le {R : Descriptor → Handle → Prop} (registry : Registry cs)
    (mem : c ∈ cs) (each : List.Forall₂ R c.automaticPrefix protos) :
    protos.length + 2 ≤ maxPrototypeChain := by
  have same := each.length_eq
  have part := c.length_automaticPrefix_le
  have chain := registry.length_chain_le mem
  simp only [Class.maxChain] at chain
  simp only [maxPrototypeChain]
  omega

/-! ### The instance test -/

/-- A prototype is on the chain of an instance if it is that of a class before the first one
without. -/
theorem Heap.Instantiates.mem_iff {b : ClassId} (instantiates : h.Instantiates c o protos)
    (distinct : Distinct h) (recorded : h.classPrototype? b = some proto) :
    proto ∈ protos ++ [h.objectPrototype] ↔ ∃ d ∈ c.automaticPrefix, d.id = b := by
  have last : proto ≠ h.objectPrototype :=
    (distinct.extrinsic _ _ (mem_of_classPrototype? recorded)).1
  rw [List.mem_append, List.mem_singleton, or_iff_left last,
    mem_prototypes_iff (instantiates.shared.imp fun _ _ both => both.1)]
  refine exists_congr fun d => and_congr_right fun _ =>
    ⟨fun there => ?_, fun same => same ▸ recorded⟩
  exact distinct.apart _ _ proto (mem_of_classPrototype? there) (mem_of_classPrototype? recorded)

/-- **A constructor takes for its instances the objects with its prototype on their chain.** -/
theorem isConstructed_of_constructs (constructs : s.heap.Constructs f b proto)
    (link : s.heap.prototype o = .ok (some p)) {chain : List Handle}
    (walk : PrototypeChain s.heap p chain) (short : chain.length ≤ maxPrototypeChain) :
    (View.isConstructed host f (.object o) s).1 = .ok (decide (proto ∈ chain)) := by
  obtain ⟨obj, found, plain, ⟨construct, behaviour⟩, own⟩ := constructs
  have behaves : (s.heap.object f).map HostObject.behaviour =
      .ok (.constructor (some b) construct) := by
    rw [found]
    exact congrArg Except.ok behaviour
  -- Reading the prototype roots it and leaves the objects alone.
  have objects : (s.heap.withResult (some (.object proto))).object = s.heap.object :=
    (s.heap.sameTable_withResult _).object
  have link' : (s.heap.withResult (some (.object proto))).prototype o = .ok (some p) := by
    rw [Heap.prototype, objects]
    exact link
  have walk' : PrototypeChain (s.heap.withResult (some (.object proto))) p chain :=
    walk.congr fun q _ => by rw [Heap.prototype, Heap.prototype, objects]
  unfold View.isConstructed View.behaviour
  rw [bind_apply]
  simp only [Action.reading, behaves]
  rw [bind_apply, getProperty_of_own found plain own]
  exact congrArg Prod.fst
    (hasPrototype_of_chain (s := s.withHeap (s.heap.withResult (some (.object proto)))) link' walk'
      short)

/-- **An object is an instance of the constructor of a class if that class is before the
first one without a prototype** in its class chain. -/
theorem hasInstance_of_constructs (registry : Registry cs) (mem : c ∈ cs)
    (distinct : Distinct s.heap) (instantiates : s.heap.Instantiates c o protos)
    (constructs : s.heap.Constructs f b proto)
    (recorded : s.heap.classPrototype? b.id = some proto) :
    (View.hasInstance host f (.object o) s).1 =
      .ok (c.automaticPrefix.any fun d => d.id == b.id) := by
  have onChain : decide (proto ∈ protos ++ [s.heap.objectPrototype]) =
      c.automaticPrefix.any fun d => d.id == b.id := by
    rw [Bool.eq_iff_iff, decide_eq_true_iff, instantiates.mem_iff distinct recorded]
    simp
  obtain ⟨p, link, walk⟩ := instantiates.chain.of_append_singleton
  have short : (protos ++ [s.heap.objectPrototype]).length ≤ maxPrototypeChain := by
    rw [List.length_append]
    exact Nat.le_of_succ_le (length_prototypes_le registry mem instantiates.shared)
  have valid : s.heap.isValid f = true := by
    obtain ⟨obj, found, -⟩ := constructs
    exact isValid_of_object found
  have form : View.hasInstance host f (.object o) = _ :=
    (Invocation.hasInstance f (.object o)).perform_eq_withOperands rfl
  rw [form, withOperands_fst valid]
  -- Rooting changes no object, and so no chain.
  show (View.byClass f (View.hasInstanceResolved host f (.object o))
    (s.withHeap (s.heap.rootAll [.object f, .object o]))).1 = _
  have constructs' :
      (s.withHeap (s.heap.rootAll [.object f, .object o])).heap.Constructs f b proto :=
    constructs
  have ofClass :
      (s.withHeap (s.heap.rootAll [.object f, .object o])).heap.classOf f = .ok none := by
    obtain ⟨obj, found, plain, -⟩ := constructs'
    rw [Heap.classOf, found]
    exact congrArg Except.ok plain
  unfold View.byClass
  rw [bind_apply]
  simp only [Action.reading, ofClass]
  show (View.isConstructed host f (.object o)
    (s.withHeap (s.heap.rootAll [.object f, .object o]))).1 = _
  rw [← onChain]
  exact isConstructed_of_constructs constructs' link (walk.congr fun _ _ => rfl) short

/-! ### Runs -/

namespace Heap

theorem AllProper.allAllowed {turns : List Turn} (proper : AllProper cs changed h turns) :
    AllAllowed h turns := by
  induction turns generalizing h with
  | nil => trivial
  | cons t ts ih => exact ⟨proper.1.allowed, ih proper.2⟩

/-- A constructor keeps its class in use. -/
theorem AllProper.usedAlong {turns : List Turn} (proper : AllProper cs changed h turns)
    (constructs : ∀ h' ∈ states h turns, h'.Constructs f c proto) : UsedAlong c.id h turns := by
  induction turns generalizing h with
  | nil => trivial
  | cons t ts ih =>
      have rest : ∀ h' ∈ states (t.run h) ts, h'.Constructs f c proto :=
        fun h' mem => constructs h' (List.mem_cons_of_mem _ mem)
      have there : t.run h ∈ states (t.run h) ts := by cases ts <;> exact List.mem_cons_self
      obtain ⟨obj, found, -, ⟨_, behaviour⟩, -⟩ := rest _ there
      refine ⟨proper.1.holds, classInUse_iff.mpr (Or.inr ⟨f, obj, found, ?_⟩), ih proper.2 rest⟩
      have made : c ∈ obj.classes := List.mem_append_right _ (by simp [behaviour])
      exact List.any_eq_true.mpr
        ⟨c, made, Class.inheritsFrom_iff.mpr ⟨c.own, List.mem_cons_self, rfl⟩⟩

theorem AsBuilt.startsAs_of_classOf (ok : AsBuilt cs changed h)
    (ofClass : h.classOf o = .ok (some c)) (own : ¬ changed o) : c ∈ cs ∧ h.StartsAs o c := by
  unfold Heap.classOf at ofClass
  cases found : h.object o with
  | error e =>
      rw [found] at ofClass
      cases ofClass
  | ok obj =>
      rw [found] at ofClass
      have ofClass : obj.ofClass = some c := Except.ok.inj ofClass
      exact ⟨ok.known o obj found c (List.mem_append_left _ (by simp [ofClass])),
        ok.startsAs found ofClass own⟩

end Heap

/-- **Instances have the prototypes of the first classes of their chain, and the functions of
the others themselves.**  In every state of a run that leaves prototypes as they were built,
the chain of an instance goes through the prototypes of the classes before the first one
without, also if the instance was just made.  And the constructor of a class takes for its
instances, as long as it keeps its prototype, those whose class chain has the class before
that place. -/
theorem instances_share_prefix (registry : Registry cs) (id : HeapId) (limits : Limits)
    (mode : CollectionMode) {turns : List Turn}
    (proper : AllProper cs changed (new id limits mode) turns) :
    ∀ h ∈ states (new id limits mode) turns,
      (∀ o c, h.classOf o = .ok (some c) → ¬ changed o → Unchanged changed c h →
        c.SplitsFunctions ∧ ∃ protos, h.Instantiates c o protos) ∧
      ∀ (σ : Type) (host : Host σ) (s : Session σ), s.heap = h →
        (∀ c ∈ cs, host.Holds cs c s → ∀ data o s',
          View.makeInstance host c data s = (.ok o, s') → Unchanged changed c s'.heap →
            c.SplitsFunctions ∧ ∃ protos, s'.heap.Instantiates c o protos) ∧
        ∀ b ∈ cs, b.own.automatic = true → host.Holds cs b s → ∀ construct f s',
          View.makeConstructor host (some b) construct s = (.ok f, s') →
            ∃ proto, s'.heap.Constructs f b proto ∧
              ∀ later, AllProper cs changed s'.heap later →
                (∀ h' ∈ states s'.heap later, h'.Constructs f b proto) →
                ∀ h' ∈ states s'.heap later, ∀ o c, h'.classOf o = .ok (some c) →
                  ¬ changed o → Unchanged changed c h' →
                  ∀ (τ : Type) (host' : Host τ) (t : Session τ), t.heap = h' →
                    (View.hasInstance host' f (.object o) t).1 =
                      .ok (c.automaticPrefix.any fun d => d.id == b.id) := by
  intro h mem
  have ok := asBuilt_states registry (asBuilt_new cs changed id limits mode) proper h mem
  refine ⟨fun o c ofClass own unchanged => ?_, ?_⟩
  · obtain ⟨known, starts⟩ := ok.startsAs_of_classOf ofClass own
    exact ⟨Class.splitsFunctions registry known, ok.instantiates registry unchanged starts⟩
  rintro σ host s rfl
  refine ⟨fun c known holds data o s' made unchanged => ?_, ?_⟩
  · obtain ⟨ok', starts⟩ := (meets_makeInstance registry known data s ⟨ok, holds⟩).1 o s' made
    exact ⟨Class.splitsFunctions registry known, ok'.instantiates registry unchanged starts⟩
  · intro b known automatic holds construct f s' made
    obtain ⟨ok₁, proto, start, constructs⟩ :=
      constructs_of_makeConstructor registry known ok holds made
    refine ⟨proto, constructs, fun later proper' along h' mem' o c ofClass own unchanged => ?_⟩
    rintro τ host' t rfl
    have cached : s'.heap.classPrototype? b.id = some proto := by
      rwa [instancePrototype?, if_pos automatic] at start
    -- The class stays in use, so its prototype is still the one that the constructor has.
    obtain ⟨-, distinct, recorded⟩ := classPrototype?_states ok₁.chained ok₁.distinct cached
      proper'.allAllowed (proper'.usedAlong along) _ mem'
    have ok' := asBuilt_states registry ok₁ proper' _ mem'
    obtain ⟨known', starts⟩ := ok'.startsAs_of_classOf ofClass own
    obtain ⟨protos, instantiates⟩ := ok'.instantiates registry unchanged starts
    exact hasInstance_of_constructs registry known' distinct instantiates (along _ mem') recorded

/-- A class with a prototype. -/
def topClass : Class :=
  ⟨{ id := ⟨0⟩, version := 0, name := Text.ofString "Top", automatic := true, values := []
     functions := [⟨Text.ofString "t", .none, ⟨0⟩⟩], callbacks := fun _ => none }, []⟩

/-- A class without one, below it. -/
def middleClass : Class :=
  ⟨{ id := ⟨1⟩, version := 0, name := Text.ofString "Middle", automatic := false, values := []
     functions := [⟨Text.ofString "m", .none, ⟨1⟩⟩], callbacks := fun _ => none }, topClass.chain⟩

/-- A class with a prototype again. -/
def leafClass : Class :=
  ⟨{ id := ⟨2⟩, version := 0, name := Text.ofString "Leaf", automatic := true, values := []
     functions := [⟨Text.ofString "l", .none, ⟨2⟩⟩], callbacks := fun _ => none },
    middleClass.chain⟩

theorem registry_leafClass : Registry [leafClass, middleClass, topClass] := by
  have top : Class.define topClass.own none = .ok topClass := by rfl
  have middle : Class.define middleClass.own (some topClass) = .ok middleClass := by rfl
  have leaf : Class.define leafClass.own (some middleClass) = .ok leafClass := by rfl
  exact .cons (.cons (.cons .nil (by simp) (by simp) top) (by simp) (by decide) middle) (by simp)
    (by decide) leaf

/-- An instance is made. -/
def makesLeaf : List Turn :=
  [⟨fun _ => true, .prototypeOf leafClass⟩,
    ⟨fun _ => true, .allocInstance leafClass none ⟨⟨0⟩, 2, 0⟩⟩]

theorem proper_makesLeaf : AllProper [leafClass, middleClass, topClass] (fun _ => False)
    (new ⟨0⟩ .standard .synchronous) makesLeaf := by
  have all : HoldsAbove (fun _ => true) [leafClass, middleClass, topClass] := fun _ _ _ _ _ => rfl
  refine ⟨⟨fun _ _ => rfl, trivial, List.mem_cons_self, all, ?_⟩,
    ⟨⟨fun _ _ => rfl, by decide +kernel⟩, trivial, List.mem_cons_self, all, ?_⟩, trivial⟩ <;>
  · intro o edited
    cases edited

/-- A session with the instance. -/
def leafSession : Session Unit := ⟨(new ⟨0⟩ .standard .synchronous).after makesLeaf, [], ()⟩

/-- A constructor made in it. -/
def makesConstructor (c : Class) : Except Fault Handle × Session Unit :=
  View.makeConstructor idleHost (some c) none leafSession

theorem holds_idleHost (cs : List Class) (c : Class) (s : Session Unit) : idleHost.Holds cs c s :=
  ⟨fun _ _ _ => by simp [Action.heldOutside, idleHost],
    fun _ _ _ _ _ _ => by simp [Action.heldOutside, idleHost]⟩

/-- The instance is one of its own class and not one of the class on top, though it inherits
from that as well. -/
theorem instances_share_prefix_leaf :
    (∃ protos, leafSession.heap.Instantiates leafClass ⟨⟨0⟩, 4, 0⟩ protos) ∧
    (View.hasInstance idleHost ⟨⟨0⟩, 5, 0⟩ (.object ⟨⟨0⟩, 4, 0⟩) (makesConstructor leafClass).2).1 =
      .ok true ∧
    (View.hasInstance idleHost ⟨⟨0⟩, 7, 0⟩ (.object ⟨⟨0⟩, 4, 0⟩) (makesConstructor topClass).2).1 =
      .ok false := by
  have last : leafSession.heap ∈ states (new ⟨0⟩ .standard .synchronous) makesLeaf :=
    after_mem_states _ _
  have unchanged : ∀ h, Unchanged (fun _ => False) leafClass h :=
    fun h => ⟨fun _ _ _ _ => not_false, not_false⟩
  obtain ⟨instances, sessions⟩ := instances_share_prefix registry_leafClass ⟨0⟩ .standard
    .synchronous proper_makesLeaf leafSession.heap last
  obtain ⟨-, constructors⟩ := sessions Unit idleHost leafSession rfl
  have tested : ∀ b ∈ [leafClass, middleClass, topClass], b.own.automatic = true → ∀ f s',
      makesConstructor b = (.ok f, s') → s'.heap.classOf ⟨⟨0⟩, 4, 0⟩ = .ok (some leafClass) →
        (View.hasInstance idleHost f (.object ⟨⟨0⟩, 4, 0⟩) s').1 =
          .ok (leafClass.automaticPrefix.any fun d => d.id == b.id) := by
    intro b known automatic f s' made ofClass
    obtain ⟨proto, constructs, stays⟩ :=
      constructors b known automatic (holds_idleHost _ _ _) none f s' made
    refine stays [] trivial (fun h' mem => ?_) s'.heap List.mem_cons_self ⟨⟨0⟩, 4, 0⟩ leafClass
      ofClass not_false (unchanged _) Unit idleHost s' rfl
    rw [List.mem_singleton.mp mem]
    exact constructs
  refine ⟨(instances ⟨⟨0⟩, 4, 0⟩ leafClass (by rfl) not_false (unchanged _)).2, ?_, ?_⟩
  · exact tested leafClass (by simp) rfl ⟨⟨0⟩, 5, 0⟩ _ (Prod.ext (by decide +kernel) rfl) (by rfl)
  · exact tested topClass (by simp) rfl ⟨⟨0⟩, 7, 0⟩ _ (Prod.ext (by decide +kernel) rfl) (by rfl)

end HostObjects
