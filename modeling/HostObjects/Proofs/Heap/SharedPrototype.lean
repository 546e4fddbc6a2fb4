import HostObjects.Proofs.Heap.ClassRelease
import HostObjects.Proofs.Heap.PrototypeChain

/-!
# The shared prototype of a class in use

Once a class has its prototype in a heap, the heap keeps that one as long as the class is
in use (`Remembers`).  A collection forgets prototypes of unused classes only, and a class
that is not in use does not get into use again by itself: objects of a class, and
constructors of its instances, are made while the class is held.  A second prototype is
never built, since building starts where none is recorded.

Prototypes of different classes are different objects (`Distinct`), because a prototype is
placed under a new handle, and all prototypes that are recorded then are still there.

Both are properties of the classes that objects use and of the table of prototypes, and
`Tabled` says which steps have to keep such a property.
-/

namespace HostObjects.Heap

variable {h h' : Heap} {held : ClassId → Bool} {I : Heap → Prop} {id : ClassId}
  {proto parent o : Handle} {d : Descriptor} {c : Class}

/-! ### Properties of the table of prototypes -/

/-- A property of heaps that the steps keep while the classes `held` are held.  It speaks of
the classes that objects use and of the shared prototypes. -/
structure Tabled (held : ClassId → Bool) (I : Heap → Prop) : Prop where
  /-- Collections keep it. -/
  collect : ∀ h, I h → I (h.collect held)
  /-- Placements of objects whose classes are held keep it. -/
  place : ∀ obj h, (∀ c ∈ obj.classes, ∀ d ∈ c.chain, held d.id = true) → I h →
    I (h.place obj).2
  /-- Stores of an object that uses the same classes keep it. -/
  store : ∀ o obj new h, h.object o = .ok obj → new.classes = obj.classes → I h →
    I (h.store o.index new)
  /-- Changes beside the objects and the shared prototypes keep it. -/
  beside : ∀ h h', SameTable h h' → h'.classPrototypes = h.classPrototypes → I h → I h'

/-- The class whose instances a constructor is to make is held. -/
def Command.HoldsMade (held : ClassId → Bool) : Command → Prop
  | .allocConstructor (some c) _ => ∀ d ∈ c.chain, held d.id = true
  | _ => True

theorem HostObject.classes_congr {obj new : HostObject} (ofClass : new.ofClass = obj.ofClass)
    (behaviour : new.behaviour = obj.behaviour) : new.classes = obj.classes := by
  unfold HostObject.classes
  rw [ofClass, behaviour]

namespace Tabled

variable (tabled : Tabled held I)
include tabled

theorem quiet : Quiet held fun _ => I where
  collect _ := tabled.collect
  schedule _ h := tabled.beside h _ ⟨rfl, rfl, rfl, rfl, rfl⟩ rfl
  place _ obj h plain _ := tabled.place obj h fun c mem => by
    rw [plain] at mem
    cases mem
  store _ o obj new h found ofClass behaviour _ :=
    tabled.store o obj new h found (HostObject.classes_congr ofClass behaviour)
  push _ v h := tabled.beside h (h.pushRoot v) ⟨rfl, rfl, rfl, rfl, rfl⟩ rfl
  pop _ _ h := tabled.beside h h.popRoot ⟨rfl, rfl, rfl, rfl, rfl⟩ rfl

/-- Any object may be allocated whose classes are held. -/
theorem alloc {obj : HostObject} (inUse : ∀ c ∈ obj.classes, ∀ d ∈ c.chain, held d.id = true) :
    Preserves I (alloc held obj) :=
  tabled.quiet.alloc #[] fun h => tabled.place obj h inUse

/-- Functions may be added to a prototype. -/
theorem fill (proto : Handle) (entries : List StaticFunction) :
    Preserves I (rooting (.object proto) (populate held proto entries)) :=
  tabled.quiet.lasting.rooting (S := #[]) (tabled.quiet.populate #[] proto entries)

/-- A prototype is built while the property lasts; what holds then follows from it when the
prototype is recorded. -/
theorem buildPrototype {J : Heap → Prop}
    (record : ∀ proto h, I h → J (h.recordPrototype d.id proto)) (parent : Handle) :
    Meets I (buildPrototype held d parent) (fun _ => J) I := by
  refine Meets.bind (tabled.alloc fun _ mem => absurd mem List.not_mem_nil) fun proto => ?_
  refine Meets.bind (tabled.fill proto _) fun _ => ?_
  exact (Meets.modify (record proto)).bind fun _ => Meets.pure fun _ hs => hs

/-- What is built along a class chain is recorded for classes that had no prototype. -/
theorem prototypeOf {chain : List Descriptor}
    (record : ∀ d ∈ chain, ∀ start, I start → start.classPrototype? d.id = none →
      ∀ proto h, I h → I (h.recordPrototype d.id proto)) :
    Preserves I (Heap.prototypeOf held chain) := by
  refine (meets_prototypeOf (A := fun _ _ => True) (fun _ _ => trivial)
    (fun _ _ _ _ _ _ => trivial) fun d mem start hs missing parent => ?_).imp
      (fun _ hs => hs) (fun _ _ post => post.1) fun _ hs => hs
  exact (tabled.buildPrototype (record d mem start hs missing) parent).imp
    (fun _ both => both.1) (fun _ _ hs => ⟨hs, trivial⟩) fun _ hs => hs

/-- **Every command keeps the property**, if building prototypes does. -/
theorem run {command : Command} (allowed : command.Allowed held h)
    (holds : command.HoldsMade held)
    (built : ∀ c, command = .prototypeOf c → I (Heap.prototypeOf held c.chain h).2) (hs : I h) :
    I (command.run held h) := by
  have quiet := tabled.quiet
  by_cases hb : command.isBeside = true
  · obtain ⟨same, -, table⟩ := command.run_beside held h hb
    exact tabled.beside h _ same table hs
  · cases command with
    | collect => exact tabled.collect h hs
    | allocPlain => exact (quiet.allocPlain #[]).state hs
    | allocFunction name call => exact (quiet.allocFunction #[] name call).state hs
    | allocConstructor made construct =>
        refine (tabled.alloc fun c mem => ?_).state hs
        cases made with
        | none => cases mem
        | some made =>
            rw [List.mem_singleton.mp mem]
            exact holds
    | prototypeOf c => exact built c rfl
    | allocInstance c data proto =>
        refine (tabled.alloc fun c' mem => ?_).state hs
        rw [List.mem_singleton.mp mem]
        exact allowed.1
    | defineOwn o p => exact (quiet.defineOwn #[] o p).state hs
    | putOwn o p => exact (quiet.putOwn #[] o p).state hs
    | deleteOwn o name => exact (quiet.deleteOwn #[] o name).state hs
    | setPrototype o p =>
        refine (preserves_setPrototype ?_ o p).state hs
        exact fun o obj new h found ofClass behaviour =>
          tabled.store o obj new h found (HostObject.classes_congr ofClass behaviour)
    | setPrivate o data => exact (quiet.setPrivate #[] o data).state hs
    | settle => exact tabled.beside h _ ⟨rfl, rfl, rfl, rfl, rfl⟩ rfl hs
    | _ => exact absurd rfl hb

end Tabled

/-- What holds of a table of prototypes holds of a part of it: then the other steps do not
matter. -/
theorem tabled_of_mono (mono : ∀ h h', h'.id = h.id →
    (∀ e ∈ h'.classPrototypes, e ∈ h.classPrototypes) → I h → I h') : Tabled held I where
  collect h := mono h (h.collect held) rfl fun _ mem => (List.mem_filter.mp mem).1
  place obj h _ := mono h _ (place_id h obj) fun _ mem => by
    rwa [place_classPrototypes] at mem
  store _ _ _ h _ _ := mono h _ rfl fun _ mem => mem
  beside h h' same table := mono h h' same.id fun _ mem => table ▸ mem

theorem tabled_missing : Tabled held fun h => h.classPrototype? id = none := by
  have none_iff : ∀ h : Heap, h.classPrototype? id = none ↔
      ∀ e ∈ h.classPrototypes, ¬ (e.1 == id) = true := by
    intro h
    rw [classPrototype?, Option.map_eq_none_iff, List.find?_eq_none]
  refine tabled_of_mono fun h h' _ part missing => ?_
  rw [none_iff] at missing ⊢
  exact fun e mem => missing e (part e mem)

/-! ### No prototype is shared by two classes -/

/-- Different classes have different shared prototypes, and none of them is an intrinsic
prototype. -/
structure Distinct (h : Heap) : Prop where
  apart : ∀ id id' o, (id, o) ∈ h.classPrototypes → (id', o) ∈ h.classPrototypes → id = id'
  extrinsic : ∀ id o, (id, o) ∈ h.classPrototypes →
    o ≠ h.objectPrototype ∧ o ≠ h.functionPrototype

/-- The object is no shared prototype and no intrinsic one. -/
structure Spare (o : Handle) (h : Heap) : Prop where
  unrecorded : ∀ id, (id, o) ∉ h.classPrototypes
  extrinsic : o ≠ h.objectPrototype ∧ o ≠ h.functionPrototype

theorem Distinct.mono (ok : Distinct h) (same : h'.id = h.id)
    (part : ∀ e ∈ h'.classPrototypes, e ∈ h.classPrototypes) : Distinct h' := by
  refine ⟨fun id id' o mem mem' => ok.apart id id' o (part _ mem) (part _ mem'),
    fun id o mem => ?_⟩
  rw [objectPrototype, functionPrototype, same]
  exact ok.extrinsic id o (part _ mem)

theorem Distinct.place (ok : Distinct h) (obj : HostObject) : Distinct (h.place obj).2 :=
  ok.mono (place_id h obj) fun _ mem => by rwa [place_classPrototypes] at mem

theorem tabled_distinct : Tabled held Distinct :=
  tabled_of_mono fun _ _ same part ok => ok.mono same part

theorem tabled_spare (o : Handle) : Tabled held (Spare o) :=
  tabled_of_mono fun h h' same part spare => by
    refine ⟨fun id mem => spare.unrecorded id (part _ mem), ?_⟩
    rw [objectPrototype, functionPrototype, same]
    exact spare.extrinsic

/-- A spare object may be recorded. -/
theorem Distinct.record (ok : Distinct h) (spare : Spare proto h) (id : ClassId) :
    Distinct (h.recordPrototype id proto) where
  apart id₁ id₂ o mem₁ mem₂ := by
    rcases List.mem_cons.mp mem₁ with eq₁ | mem₁ <;> rcases List.mem_cons.mp mem₂ with eq₂ | mem₂
    · exact (congrArg Prod.fst eq₁).trans (congrArg Prod.fst eq₂).symm
    · cases eq₁
      exact absurd (List.mem_filter.mp mem₂).1 (spare.unrecorded _)
    · cases eq₂
      exact absurd (List.mem_filter.mp mem₁).1 (spare.unrecorded _)
    · exact ok.apart _ _ _ (List.mem_filter.mp mem₁).1 (List.mem_filter.mp mem₂).1
  extrinsic id' o mem := by
    rcases List.mem_cons.mp mem with eq | mem
    · cases eq
      exact spare.extrinsic
    · exact ok.extrinsic _ _ (List.mem_filter.mp mem).1

/-- A new object is spare: whatever is recorded is there already. -/
theorem Chained.spare_place (ok : Chained h) (obj : HostObject) :
    Spare (h.place obj).1 (h.place obj).2 := by
  have new : ∀ p, h.isValid p = true → (h.place obj).1 ≠ p := by
    rintro p valid rfl
    rw [not_isValid_place_fst ok.intact.freeIsEmpty] at valid
    cases valid
  refine ⟨fun id mem => ?_, ?_⟩
  · rw [place_classPrototypes] at mem
    exact new _ (ok.shared_valid id _ mem) rfl
  · rw [objectPrototype, functionPrototype, place_id]
    exact ⟨new _ ok.intact.objectPrototype_valid, new _ ok.intact.functionPrototype_valid⟩

/-- A prototype that is built is a new object. -/
theorem meets_buildPrototype_distinct (parent : Handle) :
    Meets (fun h => Chained h ∧ Distinct h) (buildPrototype held d parent) (fun _ => Distinct)
      Distinct := by
  have placed : Meets (fun h => Chained h ∧ Distinct h) (alloc held (.ordinary (some parent)))
      (fun proto h => Distinct h ∧ Spare proto h) Distinct := by
    -- Making room may collect, so the new handle is compared with what is left after that.
    have room := ((quiet_chained held).makeRoom #[] (HostObject.ordinary (some parent)).size).and
      (tabled_distinct.quiet.makeRoom #[] (HostObject.ordinary (some parent)).size)
    refine Meets.bind (room.imp (fun _ both => both) (fun _ _ both => both) fun _ both => both.2)
      fun _ h ⟨ok, distinct⟩ => ⟨fun o h' run => ?_, fun _ _ run => ?_⟩ <;> cases run
    exact ⟨distinct.place _, ok.spare_place _⟩
  refine Meets.bind placed fun proto => ?_
  have filled : Preserves (fun h => Distinct h ∧ Spare proto h)
      (rooting (.object proto) (populate held proto d.firstFunctions)) :=
    (tabled_distinct.fill proto _).and ((tabled_spare proto).fill proto _)
  refine Meets.bind (filled.imp (fun _ both => both) (fun _ _ both => both)
    fun _ both => both.1) fun _ => ?_
  have recorded : ∀ h, Distinct h ∧ Spare proto h → Distinct (h.recordPrototype d.id proto) :=
    fun h ⟨ok, spare⟩ => ok.record spare d.id
  exact (Meets.modify recorded).bind fun _ => Meets.pure fun _ ok => ok

/-- **Prototypes are built apart from each other.** -/
theorem preserves_prototypeOf_distinct {chain : List Descriptor}
    (inUse : ∀ d ∈ chain, held d.id = true) :
    Preserves (fun h => Chained h ∧ Distinct h) (prototypeOf held chain) := by
  have both : Meets (fun h => Chained h ∧ Distinct h) (prototypeOf held chain)
      (fun o h => (Chained h ∧ Distinct h) ∧ Alive held h (.object o))
      fun h => Chained h ∧ Distinct h := by
    refine meets_prototypeOf (A := fun o h => Alive held h (.object o))
      (fun _ _ => .objectPrototype) (fun d mem _ _ ok cached => ?_)
      fun d mem _ _ _ parent => ?_
    · exact alive_of_classPrototype? ok.1.shared_valid cached (inUse d mem)
    · refine ((meets_buildPrototype_chained (inUse d mem) parent).and
        (meets_buildPrototype_distinct parent)).imp ?_ ?_ fun _ both => both
      · exact fun _ ⟨both, alive⟩ => ⟨⟨both.1, alive⟩, both⟩
      · exact fun _ _ ⟨⟨ok, alive⟩, distinct⟩ => ⟨⟨ok, distinct⟩, alive⟩
  exact both.imp (fun _ ok => ok) (fun _ _ post => post.1) fun _ ok => ok

theorem distinct_new (id : HeapId) (limits : Limits) (mode : CollectionMode) :
    Distinct (new id limits mode) where
  apart _ _ _ mem := absurd mem List.not_mem_nil
  extrinsic _ _ mem := absurd mem List.not_mem_nil

theorem Distinct.run (distinct : Distinct h) (ok : Chained h) {command : Command}
    (allowed : command.Allowed held h) : Distinct (command.run held h) := by
  cases command with
  | prototypeOf c => exact ((preserves_prototypeOf_distinct allowed).state ⟨ok, distinct⟩).2
  | allocConstructor made construct =>
      exact (tabled_distinct.quiet.alloc #[] fun _ ok => ok.place _).state distinct
  | _ => exact tabled_distinct.run allowed trivial nofun distinct

theorem distinct_after (ok : Chained h) (distinct : Distinct h) {turns : List Turn}
    (allowed : AllAllowed h turns) : Chained (h.after turns) ∧ Distinct (h.after turns) := by
  induction turns generalizing h with
  | nil => exact ⟨ok, distinct⟩
  | cons t ts ih => exact ih (ok.run allowed.1) (distinct.run ok allowed.1) allowed.2

/-! ### A class in use keeps its prototype -/

/-- While the class is in use, its prototype is recorded. -/
structure Remembers (held : ClassId → Bool) (id : ClassId) (proto : Handle) (h : Heap) :
    Prop where
  intact : Intact h
  recorded : h.classInUse held id = true → h.classPrototype? id = some proto

theorem held_of_usesClass {obj : HostObject}
    (inUse : ∀ c ∈ obj.classes, ∀ d ∈ c.chain, held d.id = true)
    (uses : obj.usesClass id = true) : held id = true := by
  obtain ⟨c, memc, inherits⟩ := List.any_eq_true.mp uses
  obtain ⟨d, memd, same⟩ := List.any_eq_true.mp inherits
  rw [beq_iff_eq] at same
  exact same ▸ inUse c memc d memd

/-- Nothing but a collection touches the recorded prototypes, and no step but a placement
brings a class into use. -/
theorem tabled_remembers (id : ClassId) (proto : Handle) :
    Tabled held (Remembers held id proto) where
  collect h ok := by
    refine ⟨ok.intact.collect held, fun inUse => ?_⟩
    have before : h.classInUse held id = true := by
      rcases (classInUse_collect_iff ok.intact held).mp inUse with inUse | used
      · exact classInUse_iff.mpr (Or.inl inUse)
      · exact used.classInUse
    rw [classPrototype?_collect, if_pos before, ok.recorded before]
  place obj h classes ok := by
    refine ⟨stable_intact.place obj h ok.intact, fun inUse => ?_⟩
    rw [classPrototype?, place_classPrototypes]
    refine ok.recorded (classInUse_iff.mpr ?_)
    rcases classInUse_iff.mp inUse with inUse | ⟨o, obj', found, uses⟩
    · exact Or.inl inUse
    · rw [object_place ok.intact.freeIsEmpty] at found
      split at found
      · cases found
        exact Or.inl (held_of_usesClass classes uses)
      · exact Or.inr ⟨o, obj', found, uses⟩
  store o obj new h found same ok := by
    refine ⟨stable_intact.store o obj new h found ok.intact, fun inUse => ?_⟩
    refine ok.recorded (classInUse_iff.mpr ?_)
    rcases classInUse_iff.mp inUse with inUse | ⟨p, obj', found', uses⟩
    · exact Or.inl inUse
    · rw [object_store found] at found'
      split at found'
      · cases found'
        exact Or.inr ⟨o, obj, found, by rwa [HostObject.usesClass, ← same]⟩
      · exact Or.inr ⟨p, obj', found', uses⟩
  beside h h' same table ok := by
    refine ⟨ok.intact.congr same, fun inUse => ?_⟩
    rw [classInUse, same.slots] at inUse
    rw [classPrototype?, table]
    exact ok.recorded inUse

/-- Recording the prototype of another class changes nothing for a class. -/
theorem classPrototype?_recordPrototype_of_ne (h : Heap) {id' : ClassId} (other : id' ≠ id)
    (proto : Handle) : (h.recordPrototype id' proto).classPrototype? id = h.classPrototype? id := by
  unfold classPrototype? recordPrototype
  rw [List.find?_cons_of_neg (by simpa using other), List.find?_filter]
  refine congrArg _ (congrFun (congrArg _ (funext fun p => ?_)) _)
  by_cases same : p.1 = id
  · simp [same, Ne.symm other]
  · simp [same]

/-- A class that is held and has its prototype gets no other one. -/
theorem preserves_prototypeOf_remembers {chain : List Descriptor}
    (inUse : ∀ d ∈ chain, held d.id = true) :
    Preserves (Remembers held id proto) (prototypeOf held chain) := by
  refine (tabled_remembers id proto).prototypeOf fun d mem start ok missing => ?_
  -- A class that is held is in use, so nothing is built for the one that is remembered.
  have other : d.id ≠ id := by
    rintro rfl
    have there := ok.recorded (classInUse_iff.mpr (Or.inl (inUse d mem)))
    rw [missing] at there
    cases there
  refine fun proto' h ok => ⟨ok.intact.congr ⟨rfl, rfl, rfl, rfl, rfl⟩, fun inUse => ?_⟩
  rw [classPrototype?_recordPrototype_of_ne h other]
  exact ok.recorded inUse

/-- In each turn of a run the class stays in use, and what is made in it has its classes
held. -/
def UsedAlong (id : ClassId) (h : Heap) : List Turn → Prop
  | [] => True
  | t :: ts => t.command.HoldsMade t.held ∧ (t.run h).classInUse t.held id = true ∧
      UsedAlong id (t.run h) ts

/-- **A command after which the class is in use keeps its prototype recorded.** -/
theorem classPrototype?_run (ok : Intact h) (cached : h.classPrototype? id = some proto)
    {command : Command} (allowed : command.Allowed held h) (holds : command.HoldsMade held)
    (inUse : (command.run held h).classInUse held id = true) :
    (command.run held h).classPrototype? id = some proto := by
  have start : Remembers held id proto h := ⟨ok, fun _ => cached⟩
  have built : ∀ c, command = .prototypeOf c →
      Remembers held id proto (prototypeOf held c.chain h).2 := by
    rintro c rfl
    exact (preserves_prototypeOf_remembers allowed).state start
  exact ((tabled_remembers id proto).run allowed holds built start).recorded inUse

/-- **As long as a class is in use a heap keeps its prototype.** -/
theorem classPrototype?_states (ok : Chained h) (distinct : Distinct h)
    (cached : h.classPrototype? id = some proto) {turns : List Turn}
    (allowed : AllAllowed h turns) (used : UsedAlong id h turns) :
    ∀ h' ∈ states h turns, Chained h' ∧ Distinct h' ∧ h'.classPrototype? id = some proto := by
  induction turns generalizing h with
  | nil =>
      intro h' mem
      rw [List.mem_singleton.mp mem]
      exact ⟨ok, distinct, cached⟩
  | cons t ts ih =>
      intro h' mem
      rcases List.mem_cons.mp mem with rfl | mem
      · exact ⟨ok, distinct, cached⟩
      · obtain ⟨holds, inUse, used⟩ := used
        have cached' := classPrototype?_run ok.intact cached allowed.1 holds inUse
        exact ih (ok.run allowed.1) (distinct.run ok allowed.1) cached' allowed.2 used h' mem

/-- Instances of other classes start with other prototypes. -/
theorem Distinct.instancePrototype?_ne (distinct : Distinct h)
    (cached : h.classPrototype? id = some proto) (other : c.id ≠ id) :
    h.instancePrototype? c ≠ some proto := by
  have mem := mem_of_classPrototype? cached
  unfold instancePrototype?
  split
  · exact fun cached' => other (distinct.apart _ _ _ (mem_of_classPrototype? cached') mem)
  · exact fun plain => (distinct.extrinsic _ _ mem).1 (Option.some.inj plain).symm

/-! ### Builds that fail -/

/-- No prototype is recorded for a class that none was built for. -/
theorem preserves_missing {chain : List Descriptor} (others : ∀ d ∈ chain, d.id ≠ id) :
    Preserves (fun h => h.classPrototype? id = none) (prototypeOf held chain) :=
  tabled_missing.prototypeOf fun d mem _ _ _ proto h ok =>
    (classPrototype?_recordPrototype_of_ne h (others d mem) proto).trans ok

/-- **A build that fails records nothing for its class.** -/
theorem classPrototype?_of_failed {e : Fault} (automatic : c.own.automatic = true)
    (others : ∀ d ∈ c.ancestors, d.id ≠ c.id)
    (run : prototypeOf held c.chain h = (.error e, h')) : h'.classPrototype? c.id = none := by
  unfold Class.chain at run
  cases missing : h.classPrototype? c.own.id with
  | some proto =>
      rw [prototypeOf_cached automatic missing] at run
      cases run
  | none =>
      rw [prototypeOf_missing automatic missing] at run
      have failing : Meets (fun h => h.classPrototype? c.id = none)
          (prototypeOf held c.ancestors >>= Heap.buildPrototype held c.own) (fun _ _ => True)
          fun h => h.classPrototype? c.id = none :=
        Meets.bind (preserves_missing others) fun parent =>
          tabled_missing.buildPrototype (fun _ _ _ => trivial) parent
      exact (failing h missing).2 e h' run

/-- Building the prototype of a class builds that of its parent first: nothing changes if
that one is built already. -/
theorem prototypeOf_of_parent {d : Descriptor} (automatic : d.automatic = true)
    (missing : h.classPrototype? d.id = none) (parent : c.own.automatic = true)
    (others : ∀ a ∈ c.chain, a.id ≠ d.id) (run : prototypeOf held c.chain h = (.ok proto, h')) :
    prototypeOf held (d :: c.chain) h = prototypeOf held (d :: c.chain) h' := by
  have missing' : h'.classPrototype? d.id = none := by
    have keep : (prototypeOf held c.chain h).2.classPrototype? d.id = none :=
      (preserves_missing others).state missing
    rwa [run] at keep
  have cached : h'.classPrototype? c.own.id = some proto := by
    have answer := instancePrototype?_prototypeOf run
    rwa [instancePrototype?, if_pos parent] at answer
  have again : prototypeOf held c.chain h' = (.ok proto, h') := prototypeOf_cached parent cached
  rw [prototypeOf_missing automatic missing, prototypeOf_missing automatic missing',
    bind_apply, bind_apply, run, again]

end HostObjects.Heap
