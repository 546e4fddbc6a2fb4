import HostObjects.Proofs.ClassChain
import HostObjects.Proofs.Heap.SharedPrototype
import Mathlib.Data.List.Forall2

/-!
# Class prototypes as they were built

The prototypes of a class chain are built at different times, in whatever order the classes
are used, and forgotten at others.  `AsBuilt` is what holds of them in every state: a
recorded prototype links to the one recorded for the parent class and has the static
functions of its class, an instance links to the prototype of its class, and the object in
which all chains end has nothing.

A host may also change prototypes, by a new link or by new properties.  So the invariant
takes a set of objects that count as changed and says nothing of them, and a run is proper
(`AllProper`) if it makes no such change to any other object.  What is recorded is kept
together by the rule that whoever holds a class holds the classes above it: a collection
forgets the prototype of a class only with those of all classes below.

Building goes through states in which a prototype has a part of its functions.  What it is
built with is new until it is recorded, so steps that leave prototypes alone (`Sparing`) are
all there is in between.

From the invariant follows where the chain of an instance leads (`AsBuilt.exists_chain`).
-/

namespace HostObjects.Heap

variable {h h' : Heap} {held : ClassId → Bool} {cs : List Class} {c : Class} {d : Descriptor}
  {ds : List Descriptor} {id : ClassId} {o p parent proto : Handle} {obj stored : HostObject}
  {entries : List StaticFunction} {changed : Handle → Prop}

/-! ### What a prototype is built with -/

/-- The prototype with which instances of a class chain start, if it is there. -/
def chainPrototype? (h : Heap) : List Descriptor → Option Handle
  | [] => some h.objectPrototype
  | d :: _ => if d.automatic then h.classPrototype? d.id else some h.objectPrototype

theorem chainPrototype?_automatic (automatic : d.automatic = true) :
    h.chainPrototype? (d :: ds) = h.classPrototype? d.id := if_pos automatic

theorem chainPrototype?_plain (plain : d.automatic = false) :
    h.chainPrototype? (d :: ds) = some h.objectPrototype := by
  simp [chainPrototype?, plain]

/-- The property is the one that an entry declares, and holds a function that runs the
callback of the entry. -/
def Carries (h : Heap) (entry : StaticFunction) (q : Property) : Prop :=
  ∃ f obj, q = ⟨entry.name, .object f, entry.attributes⟩ ∧ h.object f = .ok obj ∧
    obj.Runs entry.name entry.call

/-- The object is as a class prototype is built: it has no class, links to the prototype
above it and has one property for each entry, in order. -/
def BuiltAs (h : Heap) (p parent : Handle) (entries : List StaticFunction) : Prop :=
  ∃ obj, h.object p = .ok obj ∧ obj.ofClass = none ∧ obj.prototype = some parent ∧
    List.Forall₂ h.Carries entries obj.properties

/-- A prototype stays as it was built if it keeps its link and its properties, and the
functions in these keep what they do. -/
theorem BuiltAs.of_objects (built : h.BuiltAs p parent entries)
    (own : ∀ obj, h.object p = .ok obj → ∃ obj', h'.object p = .ok obj' ∧
      obj'.ofClass = obj.ofClass ∧ obj'.prototype = obj.prototype ∧
      obj'.properties = obj.properties)
    (inside : ∀ pobj, h.object p = .ok pobj → ∀ q ∈ pobj.properties, ∀ f obj,
      q.value = .object f → h.object f = .ok obj → ∃ obj', h'.object f = .ok obj' ∧
        obj'.ofClass = obj.ofClass ∧ obj'.behaviour = obj.behaviour) :
    h'.BuiltAs p parent entries := by
  obtain ⟨obj, found, plain, link, carried⟩ := built
  obtain ⟨obj', found', ofClass, prototype, properties⟩ := own obj found
  refine ⟨obj', found', ofClass.trans plain, prototype.trans link, properties ▸ ?_⟩
  have both := (List.forall₂_and_left obj.properties entries).mpr
    ⟨fun q (mem : q ∈ obj.properties) => mem, carried.flip⟩
  refine both.flip.imp ?_
  rintro entry q ⟨mem, f, fobj, rfl, there, runs⟩
  obtain ⟨fobj', there', ofClass, behaviour⟩ := inside obj found _ mem f fobj rfl there
  exact ⟨f, fobj', rfl, there', ofClass.trans runs.plain, behaviour.trans runs.behaviour⟩

/-- A heap with the same objects. -/
theorem BuiltAs.congr (built : h.BuiltAs p parent entries) (same : h'.object = h.object) :
    h'.BuiltAs p parent entries :=
  built.of_objects (fun obj found => ⟨obj, by rw [same, found], rfl, rfl, rfl⟩)
    fun _ _ _ _ _ obj _ found => ⟨obj, by rw [same, found], rfl, rfl⟩

theorem Populated.builtAs (populated : h.Populated p (.ordinary (some parent)) entries) :
    h.BuiltAs p parent entries := by
  obtain ⟨added, found, declared⟩ := populated
  exact ⟨_, found, rfl, rfl, declared⟩

/-! ### Steps that spare prototypes -/

/-- An allocation is a placement where there is room. -/
theorem meets_alloc {I E : Heap → Prop} {Q : Handle → Heap → Prop}
    (room : Preserves I (makeRoom held obj.size)) (failed : ∀ h, I h → E h)
    (place : ∀ h, I h → Q (h.place obj).1 (h.place obj).2) :
    Meets I (alloc held obj) Q E := by
  refine Meets.bind (room.imp (fun _ hs => hs) (fun _ _ hs => hs) failed)
    fun _ h hs => ⟨fun o h' run => ?_, fun _ _ run => ?_⟩
  · obtain ⟨rfl, rfl⟩ : (h.place obj).1 = o ∧ (h.place obj).2 = h' := by
      cases run
      exact ⟨rfl, rfl⟩
    exact place h hs
  · cases run

/-- A property of heaps that is kept by the steps of which functions are made and added to
a new object: an object is only changed as long as no class has it for its prototype. -/
structure Sparing (held : ClassId → Bool) (I : Heap → Prop) : Prop where
  /-- Such heaps have chains that end. -/
  chained : ∀ h, I h → Chained h
  /-- Collections keep it. -/
  collect : ∀ h, I h → I (h.collect held)
  /-- Placements of objects that use no class and start with an intrinsic prototype keep
  it. -/
  place : ∀ obj h, obj.classes = [] → h.LinksToIntrinsic obj → I h → I (h.place obj).2
  /-- So do stores at an object that is no prototype. -/
  store : ∀ o obj new h, h.object o = .ok obj → new.ofClass = obj.ofClass →
    new.behaviour = obj.behaviour → new.prototype = obj.prototype → Spare o h → I h →
    I (h.store o.index new)
  /-- Changes beside the objects and the shared prototypes keep it. -/
  beside : ∀ h h', SameTable h h' → h'.classPrototypes = h.classPrototypes → I h → I h'

namespace Sparing

variable {I : Heap → Prop} (sparing : Sparing held I)
include sparing

/-- The steps also keep what is kept of the recorded prototypes. -/
theorem and {J : Heap → Prop} (tabled : Tabled held J) : Sparing held fun h => I h ∧ J h where
  chained h hs := sparing.chained h hs.1
  collect h hs := ⟨sparing.collect h hs.1, tabled.collect h hs.2⟩
  place obj h plain links hs :=
    ⟨sparing.place obj h plain links hs.1, tabled.place obj h (by simp [plain]) hs.2⟩
  store p obj new h found ofClass behaviour link spare hs :=
    ⟨sparing.store p obj new h found ofClass behaviour link spare hs.1,
      tabled.store p obj new h found (HostObject.classes_congr ofClass behaviour) hs.2⟩
  beside h h' same table hs :=
    ⟨sparing.beside h h' same table hs.1, tabled.beside h h' same table hs.2⟩

/-- In particular they keep a further object from being a prototype. -/
theorem withSpare (o : Handle) : Sparing held fun h => I h ∧ Spare o h :=
  sparing.and (tabled_spare o)

theorem makeRoom (bytes : Nat) : Preserves I (makeRoom held bytes) := by
  refine Preserves.of_state fun h hs => ?_
  rcases makeRoom_state held bytes h with eq | eq | eq <;> rw [eq]
  · exact hs
  · exact sparing.beside h _ ⟨rfl, rfl, rfl, rfl, rfl⟩ rfl hs
  · exact sparing.collect h hs

theorem rooting {α : Type} {v : Value} {act : HeapM α} (keep : Preserves I act) :
    Preserves I (rooting v act) := by
  refine Preserves.of_state fun h hs => ?_
  have pushed : I (h.pushRoot v) := sparing.beside h _ ⟨rfl, rfl, rfl, rfl, rfl⟩ rfl hs
  exact sparing.beside (act (h.pushRoot v)).2 _ ⟨rfl, rfl, rfl, rfl, rfl⟩ rfl (keep.state pushed)

/-- Changing the properties of an object that is no prototype. -/
theorem change {f : HostObject → HostObject} (ofClass : ∀ obj, (f obj).ofClass = obj.ofClass)
    (behaviour : ∀ obj, (f obj).behaviour = obj.behaviour)
    (link : ∀ obj, (f obj).prototype = obj.prototype) :
    Preserves (fun h => I h ∧ Spare o h) (change o f) := by
  refine Preserves.of_state fun h hs => ?_
  unfold Heap.change
  cases found : h.object o with
  | error e => exact hs
  | ok obj =>
      exact (sparing.withSpare o).store o obj (f obj) h found (ofClass obj) (behaviour obj)
        (link obj) hs.2 hs

theorem defineOwn (o : Handle) (p : Property) :
    Preserves (fun h => I h ∧ Spare o h) (defineOwn held o p) := by
  refine (preserves_reading _).bind fun _ => (preserves_reading _).bind fun old => ?_
  cases old with
  | some _ => exact sparing.change (fun _ => rfl) (fun _ => rfl) fun _ => rfl
  | none =>
      exact ((sparing.withSpare o).makeRoom _).bind fun _ =>
        sparing.change (fun _ => rfl) (fun _ => rfl) fun _ => rfl

/-- What is allocated is new, so it is no prototype. -/
theorem alloc_of_links {obj : HostObject} (plain : obj.classes = []) :
    Meets (fun h => I h ∧ h.LinksToIntrinsic obj) (alloc held obj)
      (fun o h => I h ∧ Spare o h) I := by
  have room : Preserves (fun h => I h ∧ h.LinksToIntrinsic obj)
      (Heap.makeRoom held obj.size) := by
    refine (sparing.makeRoom _).and (Preserves.of_state fun h links => ?_)
    unfold LinksToIntrinsic objectPrototype functionPrototype
    rw [(makeRoom_beside held obj.size h).1]
    exact links
  exact meets_alloc room (fun _ both => both.1)
    fun h ⟨hs, links⟩ =>
      ⟨sparing.place obj h plain links hs, (sparing.chained h hs).spare_place obj⟩

theorem allocFunction (name : Text) (call : HostFunction) :
    Preserves I (allocFunction held name call) := by
  refine Meets.bind Meets.get fun start => ?_
  have placed : Meets (fun h => I h ∧ start = h) (Heap.alloc held (start.functionObject name call))
      (fun f h => I h ∧ Spare f h) I :=
    (sparing.alloc_of_links rfl).imp (fun h ⟨hs, same⟩ => ⟨hs, same ▸ Or.inr rfl⟩)
      (fun _ _ post => post) fun _ hs => hs
  refine placed.bind fun f => ?_
  have defined := (sparing.withSpare f).rooting (v := .object f)
    (sparing.defineOwn f ⟨nameKey, .text name, .functionName⟩)
  exact (defined.bind fun _ => Preserves.pure f).imp (fun _ both => both)
    (fun _ _ both => both.1) fun _ both => both.1

/-- Functions may be added to an object that is no prototype. -/
theorem populate (proto : Handle) (entries : List StaticFunction) :
    Preserves (fun h => I h ∧ Spare proto h) (populate held proto entries) := by
  induction entries with
  | nil => exact Preserves.pure _
  | cons entry rest ih =>
      refine ((sparing.withSpare proto).allocFunction _ _).bind fun f => ?_
      exact ((sparing.withSpare proto).rooting (sparing.defineOwn proto _)).bind fun _ => ih

end Sparing

/-! ### The invariant -/

/-- The object is a prototype that classes share, or the one they all end in. -/
def IsPrototype (h : Heap) (o : Handle) : Prop :=
  o = h.objectPrototype ∨ ∃ id, (id, o) ∈ h.classPrototypes

theorem Spare.not_isPrototype (spare : Spare o h) : ¬ h.IsPrototype o := by
  rintro (rfl | ⟨id, mem⟩)
  · exact spare.extrinsic.1 rfl
  · exact spare.unrecorded id mem

/-- **Classes have their prototypes as they were built**, but for the objects that were
changed since. -/
structure AsBuilt (cs : List Class) (changed : Handle → Prop) (h : Heap) : Prop where
  chained : Chained h
  distinct : Distinct h
  /-- Objects use classes that are known. -/
  known : ∀ o obj, h.object o = .ok obj → ∀ c ∈ obj.classes, c ∈ cs
  /-- A recorded prototype is that of a class, and links to the one recorded for its
  parent. -/
  recorded : ∀ id p, (id, p) ∈ h.classPrototypes → ∃ c ∈ cs, c.id = id ∧
    c.own.automatic = true ∧ (¬ changed p → ∃ parent,
      h.chainPrototype? c.ancestors = some parent ∧ h.BuiltAs p parent c.own.firstFunctions)
  /-- Instances start with the prototype of their class. -/
  instances : ∀ o obj c, h.object o = .ok obj → obj.ofClass = some c → ¬ changed o →
    ∃ p, obj.prototype = some p ∧ h.instancePrototype? c = some p
  /-- The prototype in which all chains end has nothing. -/
  root : ¬ changed h.objectPrototype → ∃ obj, h.object h.objectPrototype = .ok obj ∧
    obj.ofClass = none ∧ obj.prototype = none ∧ obj.properties = []

/-- Who holds a class holds the classes above it. -/
def HoldsAbove (held : ClassId → Bool) (cs : List Class) : Prop :=
  ∀ c ∈ cs, held c.id = true → ∀ d ∈ c.chain, held d.id = true

theorem classInUse_above (registry : Registry cs)
    (known : ∀ o obj, h.object o = .ok obj → ∀ c ∈ obj.classes, c ∈ cs)
    (above : HoldsAbove held cs) (mem : c ∈ cs) (inUse : h.classInUse held c.id = true) :
    ∀ d ∈ c.chain, h.classInUse held d.id = true := by
  intro d there
  rcases classInUse_iff.mp inUse with inUse | ⟨o, obj, found, uses⟩
  · exact classInUse_iff.mpr (Or.inl (above c mem inUse d there))
  · obtain ⟨c', mem', inherits⟩ := List.any_eq_true.mp uses
    have suffix := registry.suffix_of_inheritsFrom (known o obj found c' mem') mem inherits
    refine classInUse_iff.mpr (Or.inr ⟨o, obj, found, ?_⟩)
    exact List.any_eq_true.mpr
      ⟨c', mem', Class.inheritsFrom_iff.mpr ⟨d, suffix.subset there, rfl⟩⟩

/-- A collection keeps the prototypes of the classes in use. -/
theorem chainPrototype?_collect (used : ∀ d ∈ ds, h.classInUse held d.id = true) :
    (h.collect held).chainPrototype? ds = h.chainPrototype? ds := by
  cases ds with
  | nil => rfl
  | cons d ds =>
      cases automatic : d.automatic with
      | false =>
          rw [chainPrototype?_plain automatic, chainPrototype?_plain automatic]
          rfl
      | true =>
          rw [chainPrototype?_automatic automatic, chainPrototype?_automatic automatic,
            classPrototype?_collect, if_pos (used d List.mem_cons_self)]

theorem chainPrototype?_congr (same : h'.id = h.id)
    (table : h'.classPrototypes = h.classPrototypes) :
    h'.chainPrototype? = h.chainPrototype? := by
  funext ds
  cases ds with
  | nil => simp [chainPrototype?, objectPrototype, same]
  | cons d ds => simp [chainPrototype?, classPrototype?, objectPrototype, same, table]

/-- What is recorded for a class that had no prototype leaves the others. -/
theorem chainPrototype?_record (missing : h.classPrototype? id = none)
    (start : h.chainPrototype? ds = some p) (proto : Handle) :
    (h.recordPrototype id proto).chainPrototype? ds = some p := by
  cases ds with
  | nil => exact start
  | cons d ds =>
      cases automatic : d.automatic with
      | false =>
          rw [chainPrototype?_plain automatic] at start ⊢
          exact start
      | true =>
          rw [chainPrototype?_automatic automatic] at start ⊢
          have other : id ≠ d.id := by
            rintro rfl
            rw [missing] at start
            cases start
          rwa [classPrototype?_recordPrototype_of_ne h other]

namespace AsBuilt

/-- Changes beside the objects and the shared prototypes. -/
theorem beside (ok : AsBuilt cs changed h) (same : SameTable h h')
    (table : h'.classPrototypes = h.classPrototypes) : AsBuilt cs changed h' where
  chained := ok.chained.beside same (by rw [table]; exact ok.chained.shared_valid)
  distinct := ok.distinct.mono same.id fun _ mem => table ▸ mem
  known o obj found := ok.known o obj (by rwa [same.object] at found)
  recorded id p mem := by
    rw [table] at mem
    obtain ⟨c, there, rfl, automatic, built⟩ := ok.recorded id p mem
    refine ⟨c, there, rfl, automatic, fun unchanged => ?_⟩
    obtain ⟨parent, start, built⟩ := built unchanged
    exact ⟨parent, by rwa [chainPrototype?_congr same.id table], built.congr same.object⟩
  instances o obj c found ofClass unchanged := by
    rw [same.object] at found
    obtain ⟨p, link, start⟩ := ok.instances o obj c found ofClass unchanged
    refine ⟨p, link, ?_⟩
    show h'.chainPrototype? c.chain = some p
    rwa [chainPrototype?_congr same.id table]
  root := by
    have last : h'.objectPrototype = h.objectPrototype := by
      rw [objectPrototype, objectPrototype, same.id]
    rw [last, same.object]
    exact ok.root

/-- A collection forgets a class with everything below it, so what is left of the recorded
prototypes is linked as before. -/
theorem collect (registry : Registry cs) (above : HoldsAbove held cs)
    (ok : AsBuilt cs changed h) : AsBuilt cs changed (h.collect held) := by
  have intact := ok.chained.intact
  have sameUsed : ∀ c ∈ cs, h.classInUse held c.id = true →
      ∀ ds, ds <:+ c.chain → (h.collect held).chainPrototype? ds = h.chainPrototype? ds :=
    fun c mem used ds suffix => chainPrototype?_collect fun d there =>
      classInUse_above registry ok.known above mem used d (suffix.subset there)
  refine ⟨ok.chained.collect held, ok.distinct.mono rfl fun _ mem => (List.mem_filter.mp mem).1,
    fun o obj found => ok.known o obj (object_of_object_collect intact found).1, ?_, ?_, ?_⟩
  · intro id p mem
    obtain ⟨mem, used⟩ := mem_prepared_classPrototypes_iff.mp mem
    obtain ⟨c, there, rfl, automatic, built⟩ := ok.recorded id p mem
    refine ⟨c, there, rfl, automatic, fun unchanged => ?_⟩
    obtain ⟨parent, start, built⟩ := built unchanged
    rw [sameUsed c there used c.ancestors (List.suffix_cons _ _)]
    have alive : Alive held h (.object p) :=
      .classPrototype mem used (ok.chained.shared_valid _ p mem)
    refine ⟨parent, start, built.of_objects (fun obj found => ?_) fun pobj found q memq f obj value
      foundf => ?_⟩
    · exact ⟨obj, object_collect_of_alive intact found alive, rfl, rfl, rfl⟩
    · have alivef : Alive held h (.object f) :=
        .property alive found memq value (isValid_of_object foundf)
      exact ⟨obj, object_collect_of_alive intact foundf alivef, rfl, rfl⟩
  · intro o obj c found ofClass unchanged
    obtain ⟨before, -⟩ := object_of_object_collect intact found
    obtain ⟨p, link, start⟩ := ok.instances o obj c before ofClass unchanged
    have uses : c ∈ obj.classes :=
      List.mem_append_left _ (by rw [ofClass]; exact List.mem_cons_self)
    have used : h.classInUse held c.id = true := by
      refine classInUse_iff.mpr (Or.inr ⟨o, obj, before, List.any_eq_true.mpr ⟨c, uses, ?_⟩⟩)
      exact Class.inheritsFrom_iff.mpr ⟨c.own, List.mem_cons_self, rfl⟩
    refine ⟨p, link, ?_⟩
    show (h.collect held).chainPrototype? c.chain = some p
    rw [sameUsed c (ok.known o obj before c uses) used c.chain (List.suffix_refl _)]
    exact start
  · intro unchanged
    obtain ⟨obj, found, rest⟩ := ok.root unchanged
    exact ⟨obj, object_collect_of_alive intact found .objectPrototype, rest⟩

/-- Objects of known classes may be placed; an instance starts with the prototype of its
class. -/
theorem place (ok : AsBuilt cs changed h) (link : ∀ p, obj.prototype = some p → h.isValid p = true)
    (known : ∀ c ∈ obj.classes, c ∈ cs)
    (start : ∀ c, obj.ofClass = some c → ∃ p, obj.prototype = some p ∧
      h.instancePrototype? c = some p) :
    AsBuilt cs changed (h.place obj).2 := by
  have empty := ok.chained.intact.freeIsEmpty
  have objects : ∀ q qobj, h.object q = .ok qobj → (h.place obj).2.object q = .ok qobj := by
    intro q qobj found
    rw [object_place empty, if_neg]
    · exact found
    · rintro rfl
      have valid := isValid_of_object found
      rw [not_isValid_place_fst empty] at valid
      cases valid
  have chains := chainPrototype?_congr (place_id h obj) (place_classPrototypes h obj)
  refine ⟨ok.chained.place link, ok.distinct.place obj, fun o obj' found => ?_,
    fun id p mem => ?_, fun o obj' c found ofClass unchanged => ?_, fun unchanged => ?_⟩
  · rw [object_place empty] at found
    split at found
    · cases found
      exact known
    · exact ok.known o obj' found
  · rw [place_classPrototypes] at mem
    obtain ⟨c, there, rfl, automatic, built⟩ := ok.recorded id p mem
    refine ⟨c, there, rfl, automatic, fun unchanged => ?_⟩
    obtain ⟨parent, start, built⟩ := built unchanged
    refine ⟨parent, by rwa [chains], built.of_objects (fun pobj found => ?_)
      fun _ _ _ _ _ fobj _ foundf => ?_⟩
    · exact ⟨pobj, objects p pobj found, rfl, rfl, rfl⟩
    · exact ⟨fobj, objects _ fobj foundf, rfl, rfl⟩
  · show ∃ p, obj'.prototype = some p ∧ (h.place obj).2.chainPrototype? c.chain = some p
    rw [chains]
    rw [object_place empty] at found
    split at found
    · cases found
      exact start c ofClass
    · exact ok.instances o obj' c found ofClass unchanged
  · have last : (h.place obj).2.objectPrototype = h.objectPrototype := by
      rw [objectPrototype, objectPrototype, place_id]
    rw [last] at unchanged ⊢
    obtain ⟨obj', found, rest⟩ := ok.root unchanged
    exact ⟨obj', objects _ obj' found, rest⟩

/-- A change of an object, if it leaves all links and the properties of prototypes alone or
is counted as a change. -/
theorem store (ok : AsBuilt cs changed h) (found : h.object o = .ok obj)
    (chained : Chained (h.store o.index stored)) (ofClass : stored.ofClass = obj.ofClass)
    (behaviour : stored.behaviour = obj.behaviour)
    (link : ¬ changed o → stored.prototype = obj.prototype)
    (properties : ¬ changed o → h.IsPrototype o → stored.properties = obj.properties) :
    AsBuilt cs changed (h.store o.index stored) := by
  have alike : ∀ q qobj, h.object q = .ok qobj →
      ∃ qobj', (h.store o.index stored).object q = .ok qobj' ∧
      qobj'.ofClass = qobj.ofClass ∧ qobj'.behaviour = qobj.behaviour := by
    intro q qobj foundq
    rw [object_store found]
    split
    · next same =>
        subst same
        rw [found] at foundq
        cases foundq
        exact ⟨stored, rfl, ofClass, behaviour⟩
    · exact ⟨qobj, foundq, rfl, rfl⟩
  -- What is no object to be changed has its link, and its properties if it is a prototype.
  have shape : ∀ q qobj, ¬ changed q → h.IsPrototype q → h.object q = .ok qobj →
      ∃ qobj', (h.store o.index stored).object q = .ok qobj' ∧ qobj'.ofClass = qobj.ofClass ∧
        qobj'.prototype = qobj.prototype ∧ qobj'.properties = qobj.properties := by
    intro q qobj unchanged is foundq
    rw [object_store found]
    split
    · next same =>
        subst same
        rw [found] at foundq
        cases foundq
        exact ⟨stored, rfl, ofClass, link unchanged, properties unchanged is⟩
    · exact ⟨qobj, foundq, rfl, rfl, rfl⟩
  refine ⟨chained, ok.distinct.mono rfl fun _ mem => mem, fun q qobj foundq => ?_,
    fun id p mem => ?_, fun q qobj c foundq ofClass' unchanged => ?_, fun unchanged => ?_⟩
  · rw [object_store found] at foundq
    split at foundq
    · cases foundq
      rw [HostObject.classes_congr ofClass behaviour]
      exact ok.known o obj found
    · exact ok.known q qobj foundq
  · obtain ⟨c, there, rfl, automatic, built⟩ := ok.recorded id p mem
    refine ⟨c, there, rfl, automatic, fun unchanged => ?_⟩
    obtain ⟨parent, start, built⟩ := built unchanged
    exact ⟨parent, start, built.of_objects
      (fun pobj => shape p pobj unchanged (Or.inr ⟨_, mem⟩))
      fun _ _ _ _ f fobj _ => alike f fobj⟩
  · rw [object_store found] at foundq
    split at foundq
    · next same =>
        subst same
        cases foundq
        obtain ⟨p, linked, start⟩ := ok.instances q obj c found (ofClass ▸ ofClass') unchanged
        exact ⟨p, (link unchanged).trans linked, start⟩
    · exact ok.instances q qobj c foundq ofClass' unchanged
  · obtain ⟨robj, foundr, plain, last, nothing⟩ := ok.root unchanged
    obtain ⟨robj', foundr', ofClass', prototype', properties'⟩ :=
      shape _ robj unchanged (Or.inl rfl) foundr
    exact ⟨robj', foundr', ofClass'.trans plain, prototype'.trans last,
      properties'.trans nothing⟩

/-- Recording a prototype that was built for a class without one. -/
theorem record (ok : AsBuilt cs changed h) (mem : c ∈ cs) (automatic : c.own.automatic = true)
    (missing : h.classPrototype? c.id = none) (spare : Spare proto h)
    (start : h.chainPrototype? c.ancestors = some parent)
    (built : h.BuiltAs proto parent c.own.firstFunctions) :
    AsBuilt cs changed (h.recordPrototype c.id proto) := by
  have same : SameTable h (h.recordPrototype c.id proto) := ⟨rfl, rfl, rfl, rfl, rfl⟩
  refine ⟨ok.chained.beside same fun id o there => ?_, ok.distinct.record spare c.id, ok.known,
    fun id p there => ?_, fun o obj c' found ofClass unchanged => ?_, ok.root⟩
  · rcases List.mem_cons.mp there with eq | there
    · cases eq
      obtain ⟨obj, found, -⟩ := built
      exact isValid_of_object found
    · exact ok.chained.shared_valid id o (List.mem_filter.mp there).1
  · rcases List.mem_cons.mp there with eq | there
    · cases eq
      exact ⟨c, mem, rfl, automatic, fun _ =>
        ⟨parent, chainPrototype?_record missing start proto, built.congr same.object⟩⟩
    · obtain ⟨c', mem', rfl, automatic', built'⟩ :=
        ok.recorded id p (List.mem_filter.mp there).1
      refine ⟨c', mem', rfl, automatic', fun unchanged => ?_⟩
      obtain ⟨parent', start', built'⟩ := built' unchanged
      exact ⟨parent', chainPrototype?_record missing start' proto, built'.congr same.object⟩
  · obtain ⟨p, link, start'⟩ := ok.instances o obj c' found ofClass unchanged
    have start'' : h.chainPrototype? c'.chain = some p := start'
    exact ⟨p, link, chainPrototype?_record missing start'' proto⟩

end AsBuilt

theorem asBuilt_new (cs : List Class) (changed : Handle → Prop) (id : HeapId) (limits : Limits)
    (mode : CollectionMode) : AsBuilt cs changed (new id limits mode) := by
  -- The two objects there are use no class.
  have plain : ∀ o obj, (new id limits mode).object o = .ok obj → obj.classes = [] := by
    intro o obj found
    obtain ⟨-, s, slot, -, occupied⟩ := object_eq_ok_iff.mp found
    have classes : ∀ s ∈ (new id limits mode).slots, ∀ obj ∈ s.occupant, obj.classes = [] := by
      simp [new, intrinsics, HostObject.ordinary, HostObject.classes]
    exact classes s (Array.mem_of_getElem? slot) obj occupied
  refine ⟨chained_new id limits mode, distinct_new id limits mode, fun o obj found => ?_,
    fun _ _ mem => absurd mem List.not_mem_nil, fun o obj c found ofClass _ => ?_, fun _ => ?_⟩
  · rw [plain o obj found]
    exact fun _ mem => absurd mem List.not_mem_nil
  · rw [ofClass_of_classes (plain o obj found)] at ofClass
    cases ofClass
  · exact ⟨.ordinary none, object_eq_ok_iff.mpr ⟨rfl, _, rfl, rfl, rfl⟩, rfl, rfl, rfl⟩

/-! ### Building prototypes -/

/-- While the prototype of a class is built: that of its parent is there, and the class has
none yet. -/
def Building (cs : List Class) (changed : Handle → Prop) (c : Class) (parent : Handle)
    (h : Heap) : Prop :=
  (AsBuilt cs changed h ∧ h.chainPrototype? c.ancestors = some parent) ∧
    h.classPrototype? c.id = none

/-- Classes that are held keep the prototype with which their instances start. -/
theorem tabled_start (inUse : ∀ d ∈ ds, held d.id = true) :
    Tabled held fun h => h.chainPrototype? ds = some p where
  collect h start := by
    rwa [chainPrototype?_collect fun d mem => classInUse_iff.mpr (Or.inl (inUse d mem))]
  place obj h _ start := by
    rwa [chainPrototype?_congr (place_id h obj) (place_classPrototypes h obj)]
  store _ _ _ _ _ _ start := start
  beside _ _ same table start := by rwa [chainPrototype?_congr same.id table]

theorem isValid_of_chainPrototype? (ok : Chained h) (start : h.chainPrototype? ds = some p) :
    h.isValid p = true := by
  cases ds with
  | nil =>
      cases start
      exact ok.intact.objectPrototype_valid
  | cons d ds =>
      cases automatic : d.automatic with
      | false =>
          rw [chainPrototype?_plain automatic] at start
          cases start
          exact ok.intact.objectPrototype_valid
      | true =>
          rw [chainPrototype?_automatic automatic] at start
          exact ok.shared_valid _ _ (mem_of_classPrototype? start)

theorem sparing_asBuilt (registry : Registry cs) (above : HoldsAbove held cs) :
    Sparing held (AsBuilt cs changed) where
  chained _ ok := ok.chained
  collect _ ok := ok.collect registry above
  place obj h plain links ok := by
    refine ok.place (fun p link => ?_) (fun c mem => ?_) fun c ofClass => ?_
    · have intact := ok.chained.intact
      rcases links with intrinsic | intrinsic <;> rw [intrinsic, Option.some.injEq] at link
      · exact link ▸ intact.objectPrototype_valid
      · exact link ▸ intact.functionPrototype_valid
    · rw [plain] at mem
      cases mem
    · rw [ofClass_of_classes plain] at ofClass
      cases ofClass
  store o obj new h found ofClass behaviour link spare ok :=
    ok.store found (ok.chained.store found link) ofClass behaviour (fun _ => link)
      fun _ is => absurd is spare.not_isPrototype
  beside _ _ same table ok := ok.beside same table

theorem sparing_building (registry : Registry cs) (above : HoldsAbove held cs)
    (inUse : ∀ d ∈ c.ancestors, held d.id = true) :
    Sparing held (Building cs changed c parent) :=
  ((sparing_asBuilt registry above).and (tabled_start inUse)).and tabled_missing

/-- A prototype is built and recorded for a class that had none. -/
theorem meets_buildPrototype_asBuilt (registry : Registry cs) (above : HoldsAbove held cs)
    (mem : c ∈ cs) (automatic : c.own.automatic = true)
    (inUse : ∀ d ∈ c.ancestors, held d.id = true) :
    Meets (Building cs changed c parent) (buildPrototype held c.own parent)
      (fun proto h => AsBuilt cs changed h ∧ h.classPrototype? c.id = some proto)
      (AsBuilt cs changed) := by
  have sparing : Sparing held (Building cs changed c parent) :=
    sparing_building registry above inUse
  have placed : Meets (Building cs changed c parent) (alloc held (.ordinary (some parent)))
      (fun proto h => Building cs changed c parent h ∧ Spare proto h) (AsBuilt cs changed) := by
    refine meets_alloc (sparing.makeRoom _) (fun _ hs => hs.1.1) fun h hs => ?_
    obtain ⟨⟨ok, start⟩, missing⟩ := hs
    have ok' : AsBuilt cs changed (h.place (.ordinary (some parent))).2 :=
      ok.place (fun p link => by cases link; exact isValid_of_chainPrototype? ok.chained start)
        (fun _ mem => absurd mem List.not_mem_nil) fun _ ofClass => by cases ofClass
    refine ⟨⟨⟨ok', (tabled_start inUse).place _ h (fun _ mem => absurd mem List.not_mem_nil) start⟩,
      ?_⟩, ok.chained.spare_place _⟩
    rwa [classPrototype?, place_classPrototypes]
  have built : Meets (Building cs changed c parent) (buildPrototype held c.own parent)
      (fun proto h => ∃ h₁, Building cs changed c parent h₁ ∧ Spare proto h₁ ∧
        h = h₁.recordPrototype c.id proto) (AsBuilt cs changed) := by
    refine placed.bind fun proto => Meets.bind (((sparing.withSpare proto).rooting
      (sparing.populate proto _)).imp (fun _ both => both) (fun _ _ both => both)
      fun _ both => both.1.1.1) fun _ => ?_
    exact (Meets.modify fun h₁ both => ⟨h₁, both.1, both.2, rfl⟩).bind fun _ =>
      Meets.pure fun _ post => post
  intro h hs
  refine ⟨fun proto h' run => ?_, (built h hs).2⟩
  obtain ⟨h₁, ⟨⟨ok, start⟩, missing⟩, spare, rfl⟩ := (built h hs).1 proto h' run
  -- Recording comes last and leaves the objects alone.
  have populated := (populated_buildPrototype hs.1.1.chained.intact run).builtAs
  exact ⟨ok.record mem automatic missing spare start (populated.congr rfl),
    classPrototype?_recordPrototype _ _ _⟩

/-- **Prototypes are built as they should be**, in whatever order the classes are used. -/
theorem meets_prototypeOf_asBuilt (registry : Registry cs) (above : HoldsAbove held cs)
    (mem : c ∈ cs) (part : ds <:+ c.chain) (inUse : ∀ d ∈ ds, held d.id = true) :
    Meets (AsBuilt cs changed) (prototypeOf held ds)
      (fun p h => AsBuilt cs changed h ∧ h.chainPrototype? ds = some p)
      (AsBuilt cs changed) := by
  induction ds with
  | nil =>
      refine Meets.bind Meets.get fun start => Meets.pure ?_
      rintro h ⟨ok, rfl⟩
      exact ⟨ok, rfl⟩
  | cons d ancestors ih =>
      intro h ok
      cases automatic : d.automatic with
      | false =>
          rw [prototypeOf_plain automatic]
          refine ⟨fun _ _ run => ?_, fun _ _ run => ?_⟩ <;> cases run
          exact ⟨ok, chainPrototype?_plain automatic⟩
      | true =>
          simp only [chainPrototype?_automatic automatic]
          cases there : h.classPrototype? d.id with
          | some proto =>
              rw [prototypeOf_cached automatic there]
              refine ⟨fun _ _ run => ?_, fun _ _ run => ?_⟩ <;> cases run
              exact ⟨ok, there⟩
          | none =>
              rw [prototypeOf_missing automatic there]
              have known : (⟨d, ancestors⟩ : Class) ∈ cs := registry.mem_of_suffix mem part
              have inUse' : ∀ d ∈ ancestors, held d.id = true :=
                fun d mem => inUse d (List.mem_cons_of_mem _ mem)
              have rest := ih ((List.suffix_cons _ _).trans part) inUse'
              have missing : Preserves (fun h => h.classPrototype? d.id = none)
                  (prototypeOf held ancestors) :=
                preserves_missing (registry.ancestors_id_ne known)
              have parents : Meets (fun h => AsBuilt cs changed h ∧ h.classPrototype? d.id = none)
                  (prototypeOf held ancestors)
                  (fun parent => Building cs changed ⟨d, ancestors⟩ parent)
                  (AsBuilt cs changed) :=
                (rest.and missing).imp (fun _ both => both)
                  (fun _ _ post => post) fun _ both => both.1
              exact parents.bind (fun parent => meets_buildPrototype_asBuilt registry above known
                automatic inUse') h ⟨ok, there⟩

/-- What an instance of a class starts with: its class, and the prototype of that as its
link. -/
def StartsAs (h : Heap) (o : Handle) (c : Class) : Prop :=
  ∃ obj p, h.object o = .ok obj ∧ obj.ofClass = some c ∧ obj.prototype = some p ∧
    h.instancePrototype? c = some p

theorem AsBuilt.startsAs (ok : AsBuilt cs changed h) (found : h.object o = .ok obj)
    (ofClass : obj.ofClass = some c) (own : ¬ changed o) : h.StartsAs o c := by
  obtain ⟨p, link, start⟩ := ok.instances o obj c found ofClass own
  exact ⟨obj, p, found, ofClass, link, start⟩

theorem meets_allocInstance_asBuilt (registry : Registry cs) (above : HoldsAbove held cs)
    (mem : c ∈ cs) (inUse : ∀ d ∈ c.chain, held d.id = true) (data : Option PrivateData) :
    Meets (fun h => AsBuilt cs changed h ∧ h.instancePrototype? c = some p)
      (allocInstance held c data p) (fun o h => AsBuilt cs changed h ∧ h.StartsAs o c)
      (AsBuilt cs changed) := by
  have sparing : Sparing held fun h => AsBuilt cs changed h ∧ h.chainPrototype? c.chain = some p :=
    (sparing_asBuilt registry above).and (tabled_start inUse)
  refine meets_alloc (sparing.makeRoom _) (fun _ both => both.1) fun h ⟨ok, start⟩ => ?_
  refine ⟨ok.place (fun q link => ?_) (fun c' mem' => ?_) fun c' ofClass => ?_, ?_⟩
  · cases link
    exact isValid_of_chainPrototype? ok.chained (show h.chainPrototype? c.chain = some p from start)
  · rwa [List.mem_singleton.mp mem']
  · cases ofClass
    exact ⟨p, rfl, start⟩
  · refine ⟨⟨some p, some c, .ordinary, [], data⟩, p, ?_, rfl, rfl, ?_⟩
    · rw [object_place ok.chained.intact.freeIsEmpty, if_pos rfl]
    · show (h.place _).2.chainPrototype? c.chain = some p
      rw [chainPrototype?_congr (place_id h _) (place_classPrototypes h _)]
      exact start

/-- A constructor may be allocated of a class that is known, and is no prototype. -/
theorem meets_allocConstructor_asBuilt (registry : Registry cs) (above : HoldsAbove held cs)
    {made : Option Class} (knows : ∀ c, made = some c → c ∈ cs)
    (construct : Option HostFunction) :
    Meets (AsBuilt cs changed)
      (do
        let h ← get
        alloc held ⟨some h.functionPrototype, none, .constructor made construct, [], none⟩)
      (fun f h => AsBuilt cs changed h ∧ Spare f h) (AsBuilt cs changed) := by
  have sparing : Sparing held (AsBuilt cs changed) := sparing_asBuilt registry above
  refine Meets.bind Meets.get fun start => ?_
  let obj : HostObject :=
    ⟨some start.functionPrototype, none, .constructor made construct, [], none⟩
  have keep : Preserves (fun h' => AsBuilt cs changed h' ∧ h'.id = start.id)
      (Heap.makeRoom held obj.size) :=
    (sparing.makeRoom _).and (Preserves.of_state fun h' same => by
      rw [(makeRoom_beside held obj.size h').1, same])
  refine (meets_alloc keep (fun _ both => both.1) fun h' ⟨ok, same⟩ => ⟨?_, ?_⟩).imp
    (fun _ ⟨ok, same⟩ => ⟨ok, congrArg Heap.id same.symm⟩) (fun _ _ post => post) fun _ ok => ok
  · refine ok.place (fun p link => ?_) (fun c mem => ?_) fun c ofClass => ?_
    · cases link
      rw [functionPrototype, ← same]
      exact ok.chained.intact.functionPrototype_valid
    · exact knows c (by simpa [HostObject.classes, obj] using mem)
    · cases ofClass
  · exact ok.chained.spare_place obj

/-! ### Runs -/

/-- The classes that a command is about are known. -/
def Command.Knows (cs : List Class) : Command → Prop
  | prototypeOf c | allocInstance c _ _ => c ∈ cs
  | allocConstructor made _ => ∀ c, made = some c → c ∈ cs
  | _ => True

/-- The object that a command changes, if it changes one. -/
def Command.edited? : Command → Option Handle
  | defineOwn o _ | putOwn o _ | deleteOwn o _ | setPrototype o _ | setPrivate o _ => some o
  | _ => none

/-- The turn leaves an object its prototype link and, if it is a prototype, its
properties. -/
def Turn.Leaves (t : Turn) (o : Handle) (h : Heap) : Prop :=
  ∀ obj obj', h.object o = .ok obj → (t.run h).object o = .ok obj' →
    obj'.prototype = obj.prototype ∧
      ((t.run h).IsPrototype o → obj'.properties = obj.properties)

/-- A turn of a host that keeps to the rules: it uses classes that are known and holds
those above the ones that it holds, and what it changes is counted as changed. -/
structure Turn.Proper (cs : List Class) (changed : Handle → Prop) (t : Turn) (h : Heap) :
    Prop where
  allowed : t.command.Allowed t.held h
  holds : t.command.HoldsMade t.held
  knows : t.command.Knows cs
  above : HoldsAbove t.held cs
  leaves : ∀ o, t.command.edited? = some o → ¬ changed o → t.Leaves o h

/-- Each turn of a run keeps to the rules. -/
def AllProper (cs : List Class) (changed : Handle → Prop) (h : Heap) : List Turn → Prop
  | [] => True
  | t :: ts => t.Proper cs changed h ∧ AllProper cs changed (t.run h) ts

/-- What holds while room is made to change an object, and what holds when it was stored or
left as it is. -/
structure Edits (held : ClassId → Bool) (o : Handle) (I J : Heap → Prop) : Prop where
  left : ∀ h, I h → J h
  room : ∀ bytes, Preserves I (makeRoom held bytes)
  store : ∀ h obj new, I h → h.object o = .ok obj → new.ofClass = obj.ofClass →
    new.behaviour = obj.behaviour → J (h.store o.index new)

namespace Edits

variable {I J : Heap → Prop} (edits : Edits held o I J)
include edits

theorem change (f : HostObject → HostObject) (ofClass : ∀ obj, (f obj).ofClass = obj.ofClass)
    (behaviour : ∀ obj, (f obj).behaviour = obj.behaviour) :
    Meets I (Heap.change o f) (fun _ => J) J := by
  refine Meets.of_state fun h hs => ?_
  unfold Heap.change
  cases found : h.object o with
  | error e => exact edits.left h hs
  | ok obj => exact edits.store h obj (f obj) hs found (ofClass obj) (behaviour obj)

theorem reading {α : Type} (f : Heap → Except Fault α) :
    Meets I (Heap.reading f) (fun _ => I) J :=
  Meets.imp (fun _ hs => hs) (fun _ _ hs => hs) edits.left (preserves_reading (I := I) f)

theorem defineOwn (p : Property) : Meets I (Heap.defineOwn held o p) (fun _ => J) J := by
  refine (edits.reading _).bind fun _ => (edits.reading _).bind fun old => ?_
  cases old with
  | some _ => exact edits.change (withUpdated p) (fun _ => rfl) fun _ => rfl
  | none =>
      have room : Meets I (makeRoom held HostObject.propertyBytes) (fun _ => I) J :=
        (edits.room _).imp (fun _ hs => hs) (fun _ _ hs => hs) edits.left
      exact room.bind fun _ => edits.change (withAdded p) (fun _ => rfl) fun _ => rfl

theorem putOwn (p : Property) : Meets I (Heap.putOwn held o p) (fun _ => J) J := by
  refine (edits.reading _).bind fun _ => (edits.reading _).bind fun old => ?_
  cases old with
  | none => exact (edits.defineOwn p).bind fun _ => Meets.pure fun _ hs => hs
  | some old =>
      refine Meets.ite (fun _ => Meets.pure edits.left) fun _ => ?_
      exact (edits.change (withUpdated _) (fun _ => rfl) fun _ => rfl).bind fun _ =>
        Meets.pure fun _ hs => hs

theorem deleteOwn (name : Text) : Meets I (Heap.deleteOwn o name) (fun _ => J) J := by
  refine (edits.reading _).bind fun old => ?_
  cases old with
  | none => exact Meets.pure edits.left
  | some old =>
      refine Meets.ite (fun _ => Meets.pure edits.left) fun _ => ?_
      exact (edits.change (withRemoved name) (fun _ => rfl) fun _ => rfl).bind fun _ =>
        Meets.pure fun _ hs => hs

theorem setPrototype (p : Option Handle) :
    Meets I (Heap.setPrototype o p) (fun _ => J) J :=
  (edits.reading _).bind fun _ => (edits.reading _).bind fun _ =>
    edits.change (fun obj => { obj with prototype := p }) (fun _ => rfl) fun _ => rfl

/-- **A command that changes an object makes room and stores it**, or does less. -/
theorem run {command : Command} (edited : command.edited? = some o) (hs : I h) :
    J (command.run held h) := by
  cases command with
  | defineOwn o' p =>
      cases edited
      exact (edits.defineOwn p).state hs
  | putOwn o' p =>
      cases edited
      exact (edits.putOwn p).state hs
  | deleteOwn o' name =>
      cases edited
      exact (edits.deleteOwn name).state hs
  | setPrototype o' p =>
      cases edited
      exact (edits.setPrototype p).state hs
  | setPrivate o' data =>
      cases edited
      exact (edits.change (fun obj => { obj with privateData := data }) (fun _ => rfl)
        fun _ => rfl).state hs
  | _ => cases edited

end Edits

/-- A command that changes an object and counts as changing it. -/
theorem AsBuilt.run_of_edited (registry : Registry cs) (ok : AsBuilt cs changed h) {t : Turn}
    (proper : t.Proper cs changed h) (edited : t.command.edited? = some o) :
    AsBuilt cs changed (t.run h) := by
  -- Up to the store the object is the one that was there.
  let I (h₁ : Heap) : Prop := AsBuilt cs changed h₁ ∧
    ∀ obj, h₁.object o = .ok obj → h.object o = .ok obj
  let J (h' : Heap) : Prop := Chained h' → (¬ changed o → ∀ obj obj', h.object o = .ok obj →
    h'.object o = .ok obj' → obj'.prototype = obj.prototype ∧
      (h'.IsPrototype o → obj'.properties = obj.properties)) → AsBuilt cs changed h'
  have room : ∀ n, Preserves I (makeRoom t.held n) := by
    intro n
    refine Preserves.of_state fun h₁ ⟨ok, before⟩ => ?_
    rcases makeRoom_state t.held n h₁ with eq | eq | eq <;> rw [eq]
    · exact ⟨ok, before⟩
    · exact ⟨ok.beside ⟨rfl, rfl, rfl, rfl, rfl⟩ rfl, before⟩
    · exact ⟨ok.collect registry proper.above, fun obj found =>
        before obj (object_of_object_collect ok.chained.intact found).1⟩
  have edits : Edits t.held o I J := by
    refine ⟨fun _ hs _ _ => hs.1, room, ?_⟩
    rintro h₁ obj new ⟨ok, before⟩ found ofClass behaviour chained leaves
    have stored : (h₁.store o.index new).object o = .ok new := by
      rw [object_store found, if_pos rfl]
    exact ok.store found chained ofClass behaviour
      (fun unchanged => (leaves unchanged obj new (before obj found) stored).1)
      fun unchanged => (leaves unchanged obj new (before obj found) stored).2
  exact edits.run edited ⟨ok, fun _ found => found⟩ (ok.chained.run proper.allowed)
    (proper.leaves o edited)

/-- **Every turn of a host that keeps to the rules leaves the prototypes as they were
built.** -/
theorem AsBuilt.run (registry : Registry cs) (ok : AsBuilt cs changed h) {t : Turn}
    (proper : t.Proper cs changed h) : AsBuilt cs changed (t.run h) := by
  have sparing : Sparing t.held (AsBuilt cs changed) := sparing_asBuilt registry proper.above
  have edited := fun o => ok.run_of_edited (o := o) registry proper
  obtain ⟨held, command⟩ := t
  by_cases hb : command.isBeside = true
  · obtain ⟨same, -, table⟩ := command.run_beside held h hb
    exact ok.beside same table
  · cases command with
    | collect => exact ok.collect registry proper.above
    | allocPlain =>
        have placed : Meets (AsBuilt cs changed) (Heap.allocPlain held)
            (fun _ => AsBuilt cs changed) (AsBuilt cs changed) :=
          Meets.bind Meets.get fun start => (sparing.alloc_of_links rfl).imp
            (fun _ ⟨ok, same⟩ => ⟨ok, same ▸ Or.inl rfl⟩) (fun _ _ post => post.1) fun _ ok => ok
        exact placed.state ok
    | allocFunction name call => exact (sparing.allocFunction name call).state ok
    | allocConstructor made construct =>
        have placed : Meets (AsBuilt cs changed)
            (do
              let h ← get
              alloc held ⟨some h.functionPrototype, none, .constructor made construct, [], none⟩)
            (fun _ => AsBuilt cs changed) (AsBuilt cs changed) :=
          (meets_allocConstructor_asBuilt registry proper.above proper.knows construct).imp
            (fun _ ok => ok) (fun _ _ post => post.1) fun _ ok => ok
        have built := placed.state ok
        rwa [get_bind_apply] at built
    | prototypeOf c =>
        exact Meets.state ((meets_prototypeOf_asBuilt registry proper.above proper.knows
          (List.suffix_refl _) proper.allowed).imp (fun _ ok => ok) (fun _ _ post => post.1)
          fun _ ok => ok) ok
    | allocInstance c data proto =>
        obtain ⟨inUse, start⟩ := proper.allowed
        exact Meets.state ((meets_allocInstance_asBuilt registry proper.above proper.knows
          inUse data).imp (fun _ both => both) (fun _ _ post => post.1) fun _ ok => ok) ⟨ok, start⟩
    | settle => exact ok.beside ⟨rfl, rfl, rfl, rfl, rfl⟩ rfl
    | defineOwn o _ | putOwn o _ | deleteOwn o _ | setPrototype o _ | setPrivate o _ =>
        exact edited o rfl
    | _ => exact absurd rfl hb

theorem asBuilt_states (registry : Registry cs) (ok : AsBuilt cs changed h) {turns : List Turn}
    (proper : AllProper cs changed h turns) : ∀ h' ∈ states h turns, AsBuilt cs changed h' := by
  induction turns generalizing h with
  | nil =>
      intro h' mem
      rw [List.mem_singleton.mp mem]
      exact ok
  | cons t ts ih =>
      intro h' mem
      rcases List.mem_cons.mp mem with rfl | mem
      · exact ok
      · exact ih (ok.run registry proper.1) proper.2 h' mem

/-! ### The prototypes of a class chain -/

/-- The prototypes of the classes that have one of their own on the chain of an instance, and
the one in which the chain ends, are as they were built. -/
structure Unchanged (changed : Handle → Prop) (c : Class) (h : Heap) : Prop where
  shared : ∀ d ∈ c.automaticPrefix, ∀ p, h.classPrototype? d.id = some p → ¬ changed p
  last : ¬ changed h.objectPrototype

theorem PrototypeChain.of_root (ok : AsBuilt cs changed h)
    (unchanged : ¬ changed h.objectPrototype) :
    PrototypeChain h h.objectPrototype [h.objectPrototype] := by
  obtain ⟨obj, found, -, none, -⟩ := ok.root unchanged
  exact .last (prototype_eq_ok_iff.mpr ⟨obj, found, none⟩)

/-- **The prototypes that are built for a class chain are linked in its order**, up to the
first class without one. -/
theorem AsBuilt.exists_prototypes (registry : Registry cs) (ok : AsBuilt cs changed h)
    (mem : c ∈ cs) (part : ds <:+ c.chain) (start : h.chainPrototype? ds = some p)
    (shared : ∀ d ∈ ds.takeWhile Descriptor.automatic, ∀ p,
      h.classPrototype? d.id = some p → ¬ changed p)
    (last : ¬ changed h.objectPrototype) :
    ∃ protos, PrototypeChain h p (protos ++ [h.objectPrototype]) ∧
      List.Forall₂ (fun d q => h.classPrototype? d.id = some q ∧
        ∃ parent, h.BuiltAs q parent d.firstFunctions)
        (ds.takeWhile Descriptor.automatic) protos := by
  induction ds generalizing p with
  | nil =>
      cases start
      exact ⟨[], .of_root ok last, .nil⟩
  | cons d ancestors ih =>
      cases automatic : d.automatic with
      | false =>
          rw [chainPrototype?_plain automatic] at start
          cases start
          rw [List.takeWhile_cons_of_neg (by simp [automatic])]
          exact ⟨[], .of_root ok last, .nil⟩
      | true =>
          rw [chainPrototype?_automatic automatic] at start
          rw [List.takeWhile_cons_of_pos automatic] at shared ⊢
          obtain ⟨c', mem', same, -, built⟩ := ok.recorded d.id p (mem_of_classPrototype? start)
          -- The class of the record is the one that the rest of the chain belongs to.
          obtain rfl : c' = ⟨d, ancestors⟩ :=
            registry.eq_of_id mem' (registry.mem_of_suffix mem part) same
          obtain ⟨parent, above, built⟩ := built (shared d List.mem_cons_self p start)
          obtain ⟨protos, walk, each⟩ := ih ((List.suffix_cons _ _).trans part) above
            fun d mem => shared d (List.mem_cons_of_mem _ mem)
          refine ⟨p :: protos, ?_, .cons ⟨start, parent, built⟩ each⟩
          obtain ⟨obj, found, -, link, -⟩ := built
          exact .link (prototype_eq_ok_iff.mpr ⟨obj, found, link⟩) walk

/-- The chain of an instance goes through the prototypes of its classes. -/
theorem AsBuilt.exists_chain (registry : Registry cs) (ok : AsBuilt cs changed h)
    (unchanged : Unchanged changed c h) (starts : h.StartsAs o c) :
    ∃ protos, PrototypeChain h o (o :: (protos ++ [h.objectPrototype])) ∧
      List.Forall₂ (fun d q => h.classPrototype? d.id = some q ∧
        ∃ parent, h.BuiltAs q parent d.firstFunctions) c.automaticPrefix protos := by
  obtain ⟨obj, p, found, ofClass, link, start⟩ := starts
  have mem : c ∈ cs := ok.known o obj found c (List.mem_append_left _ (by simp [ofClass]))
  obtain ⟨protos, walk, each⟩ := ok.exists_prototypes registry mem (List.suffix_refl _) start
    unchanged.shared unchanged.last
  exact ⟨protos, .link (prototype_eq_ok_iff.mpr ⟨obj, found, link⟩) walk, each⟩

end HostObjects.Heap
