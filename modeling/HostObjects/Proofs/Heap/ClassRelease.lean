import HostObjects.Proofs.Heap.Collection
import HostObjects.Proofs.Heap.LostValue
import Mathlib.Logic.Relation

/-!
# When shared prototypes are let go

The heap keeps the shared prototype of a class as long as the class is in use, and a class
is in use as long as an object of the heap uses it, whether that object is alive or not.
So two collections decide over a class that nobody holds from outside: the first one
frees what is dead, and the second one forgets the prototype if no object that uses the
class was left (`two_collections_decide`).

Objects that only shared prototypes lead to are left by the first collection.  A
prototype is a root, so an object that uses the class and that the prototype of the class
leads to keeps the class in use, and with it the prototype.  No number of collections ends
that (`KeepsItself.collections`).
-/

namespace HostObjects.Heap

variable {h : Heap} {held held' : ClassId → Bool} {id : ClassId} {proto : Handle}

/-! ### Other shared prototypes -/

/-- The heap with other shared prototypes. -/
def withPrototypes (h : Heap) (prototypes : List (ClassId × Handle)) : Heap :=
  { h with classPrototypes := prototypes }

/-- The heap with the shared prototypes of all classes but one. -/
def unrecord (h : Heap) (id : ClassId) : Heap :=
  h.withPrototypes (h.classPrototypes.filter fun p => !(p.1 == id))

theorem sameTable_withPrototypes {prototypes : List (ClassId × Handle)} :
    SameTable h (h.withPrototypes prototypes) :=
  ⟨rfl, rfl, rfl, rfl, rfl⟩

/-- Whatever is alive is alive with shared prototypes among which are those of the classes in
use. -/
theorem Alive.withPrototypes {prototypes : List (ClassId × Handle)}
    (kept : ∀ id o, (id, o) ∈ h.classPrototypes → h.classInUse held id = true →
      (id, o) ∈ prototypes) {n : Node} (alive : Alive held h n) :
    Alive held (h.withPrototypes prototypes) n := by
  induction alive with
  | objectPrototype => exact .objectPrototype
  | functionPrototype => exact .functionPrototype
  | stack mem valid => exact .stack mem valid
  | root mem valid => exact .root mem valid
  | pin mem valid => exact .pin mem valid
  | classPrototype mem used valid => exact .classPrototype (kept _ _ mem used) used valid
  | hostRoot mem => exact .hostRoot mem
  | prototype _ found link valid ih => exact .prototype ih found link valid
  | property _ found mem value valid ih => exact .property ih found mem value valid
  | edgeToObject _ mem valid ih => exact .edgeToObject ih mem valid
  | edgeToHost _ mem ih => exact .edgeToHost ih mem

/-- The shared prototype of a class that is not in use is no root. -/
theorem alive_unrecord_iff (unused : h.classInUse held id = false) {n : Node} :
    Alive held (h.unrecord id) n ↔ Alive held h n := by
  constructor
  · intro alive
    -- Taking the prototype back is a change of the same kind.
    have back : Alive held ((h.unrecord id).withPrototypes h.classPrototypes) n :=
      alive.withPrototypes fun id' o mem _ => (List.mem_filter.mp mem).1
    exact back
  · refine fun alive => alive.withPrototypes fun id' o mem used => ?_
    have other : id' ≠ id := by
      rintro rfl
      rw [unused] at used
      cases used
    exact List.mem_filter.mpr ⟨mem, by simpa using other⟩

/-! ### Classes in use -/

/-- A class is in use if it is held, or an object of the heap uses it. -/
theorem classInUse_iff :
    h.classInUse held id = true ↔
      held id = true ∨ ∃ o obj, h.object o = .ok obj ∧ obj.usesClass id = true := by
  unfold classInUse
  rw [Bool.or_eq_true, Array.any_eq_true']
  refine or_congr_right ⟨?_, ?_⟩
  · rintro ⟨s, mem, uses⟩
    obtain ⟨obj, occupant, uses⟩ := (Option.any_eq_true _ _).mp uses
    obtain ⟨i, slot⟩ := Array.mem_iff_getElem?.mp mem
    exact ⟨h.handleAt i s, obj, object_handleAt slot occupant, uses⟩
  · rintro ⟨o, obj, found, uses⟩
    obtain ⟨-, s, slot, -, occupant⟩ := object_eq_ok_iff.mp found
    exact ⟨s, Array.mem_of_getElem? slot, (Option.any_eq_true _ _).mpr ⟨obj, occupant, uses⟩⟩

/-- A collection forgets the shared prototypes of classes that are not in use. -/
theorem classPrototype?_collect (held : ClassId → Bool) (h : Heap) (id : ClassId) :
    (h.collect held).classPrototype? id =
      if h.classInUse held id = true then h.classPrototype? id else none := by
  have table : (h.collect held).classPrototypes =
      h.classPrototypes.filter fun p => h.classInUse held p.1 := rfl
  unfold classPrototype?
  rw [table, List.find?_filter]
  split
  · next used =>
      refine congrArg _ (congrFun (congrArg _ (funext fun p => ?_)) _)
      by_cases same : p.1 = id
      · simp [same, used]
      · simp [same]
  · next unused =>
      rw [Option.map_eq_none_iff, List.find?_eq_none]
      rintro p - found
      simp only [beq_iff_eq, decide_eq_true_eq] at found
      exact unused (found.2 ▸ found.1)

/-- An object that uses the class is kept by the next collection. -/
def UsedByLive (held : ClassId → Bool) (h : Heap) (id : ClassId) : Prop :=
  ∃ o obj, h.object o = .ok obj ∧ obj.usesClass id = true ∧ Alive held h (.object o)

theorem UsedByLive.classInUse (used : UsedByLive held h id) :
    h.classInUse held' id = true := by
  obtain ⟨o, obj, found, uses, -⟩ := used
  exact classInUse_iff.mpr (Or.inr ⟨o, obj, found, uses⟩)

/-- After a collection a class is in use if it is held, or was used by what was alive. -/
theorem classInUse_collect_iff (ok : Intact h) (held' : ClassId → Bool) :
    (h.collect held).classInUse held' id = true ↔ held' id = true ∨ UsedByLive held h id := by
  rw [classInUse_iff]
  refine or_congr_right ⟨?_, ?_⟩
  · rintro ⟨o, obj, found, uses⟩
    obtain ⟨before, alive⟩ := object_of_object_collect ok found
    exact ⟨o, obj, before, uses, alive⟩
  · rintro ⟨o, obj, found, uses, alive⟩
    exact ⟨o, obj, object_collect_of_alive ok found alive, uses⟩

/-! ### Prototypes that keep themselves -/

/-- Links of objects lead from one object of the heap to another. -/
def Leads (h : Heap) : Handle → Handle → Prop :=
  Relation.ReflTransGen fun o p => ∃ obj, h.object o = .ok obj ∧ p ∈ obj.links ∧
    h.isValid p = true

/-- What is alive keeps alive what it leads to, and still leads there after a collection. -/
theorem Leads.collect {o p : Handle} (leads : Leads h o p) (ok : Intact h)
    (alive : Alive held h (.object o)) :
    Alive held h (.object p) ∧ Leads (h.collect held) o p := by
  induction leads with
  | refl => exact ⟨alive, .refl⟩
  | tail _ step ih =>
      obtain ⟨obj, found, link, valid⟩ := step
      obtain ⟨alive, leads⟩ := ih
      have next : Alive held h (.object _) :=
        (HostObject.mem_links_iff.mp link).elim (fun proto => alive.prototype found proto valid)
          fun ⟨_, mem, value⟩ => alive.property found mem value valid
      have found' := object_collect_of_alive ok found alive
      exact ⟨next, leads.tail ⟨obj, found', link, (isValid_collect_iff ok).mpr ⟨valid, next⟩⟩⟩

/-- The shared prototype of a class leads to an object that uses the class. -/
structure KeepsItself (h : Heap) (id : ClassId) (proto : Handle) : Prop where
  intact : Intact h
  cached : h.classPrototype? id = some proto
  valid : h.isValid proto = true
  user : ∃ o obj, Leads h proto o ∧ h.object o = .ok obj ∧ obj.usesClass id = true

theorem KeepsItself.collect (keeps : KeepsItself h id proto) (held : ClassId → Bool) :
    KeepsItself (h.collect held) id proto := by
  obtain ⟨o, obj, leads, found, uses⟩ := keeps.user
  have inUse : h.classInUse held id = true := classInUse_iff.mpr (Or.inr ⟨o, obj, found, uses⟩)
  have alive : Alive held h (.object proto) :=
    .classPrototype (mem_of_classPrototype? keeps.cached) inUse keeps.valid
  obtain ⟨alive', leads'⟩ := leads.collect keeps.intact alive
  refine ⟨keeps.intact.collect held, ?_, ?_, o, obj, leads', ?_, uses⟩
  · rw [classPrototype?_collect, if_pos inUse, keeps.cached]
  · exact (isValid_collect_iff keeps.intact).mpr ⟨keeps.valid, alive⟩
  · exact object_collect_of_alive keeps.intact found alive'

/-- **A prototype that leads to an object that uses its class is never let go**, however
often the heap is collected and whatever is held. -/
theorem KeepsItself.collections (keeps : KeepsItself h id proto)
    (held : List (ClassId → Bool)) :
    KeepsItself (held.foldl (fun h held => h.collect held) h) id proto := by
  induction held generalizing h with
  | nil => exact keeps
  | cons first rest ih => exact ih (keeps.collect first)

/-! ### Two collections -/

/-- **Two collections decide over the shared prototype of a class that is no longer held.**
If the first one keeps no object that uses the class, the second one forgets the prototype
and frees it, unless something else leads to it.  Otherwise both keep it. -/
theorem two_collections_decide (reachable : Reachable h)
    (held held' : ClassId → Bool) (unheld : held' id = false)
    (cached : h.classPrototype? id = some proto) :
    (¬ UsedByLive held h id →
      ((h.collect held).collect held').classPrototype? id = none ∧
      (((h.collect held).collect held').isValid proto = true ↔
        (h.collect held).isValid proto = true ∧
          Alive held' ((h.collect held).unrecord id) (.object proto))) ∧
    (UsedByLive held h id →
      ((h.collect held).collect held').classPrototype? id = some proto ∧
      ((h.collect held).collect held').isValid proto = h.isValid proto) := by
  have ok := reachable.intact
  have ok' := ok.collect held
  have later : (h.collect held).classInUse held' id = true ↔ UsedByLive held h id := by
    simp [classInUse_collect_iff ok held', unheld]
  constructor
  · intro unused
    have unused' : (h.collect held).classInUse held' id = false :=
      (Bool.not_eq_true _).mp (later.not.mpr unused)
    refine ⟨?_, ?_⟩
    · rw [classPrototype?_collect, if_neg (by rw [unused']; exact Bool.false_ne_true)]
    · rw [isValid_collect_iff ok', alive_unrecord_iff unused']
  · intro used
    have cached' : (h.collect held).classPrototype? id = some proto := by
      rw [classPrototype?_collect, if_pos used.classInUse, cached]
    refine ⟨by rw [classPrototype?_collect, if_pos (later.mpr used), cached'], ?_⟩
    rw [Bool.eq_iff_iff, isValid_collect_iff ok', isValid_collect_iff ok]
    refine ⟨fun kept => kept.1.1, fun valid => ?_⟩
    -- In both heaps the class is in use, so its prototype is a root.
    have alive : Alive held h (.object proto) :=
      .classPrototype (mem_of_classPrototype? cached) used.classInUse valid
    have valid' := (isValid_collect_iff ok).mpr ⟨valid, alive⟩
    exact ⟨⟨valid, alive⟩,
      .classPrototype (mem_of_classPrototype? cached') (later.mpr used) valid'⟩

/-- A class without a parent. -/
def transient : Class :=
  ⟨⟨⟨0⟩, 0, Text.ofString "Transient", true, [], [], fun _ => none⟩, []⟩

/-- Its prototype is built while the class is held. -/
def usesTransient (commands : List Command) : Heap :=
  after (new ⟨0⟩ .standard .synchronous)
    ((.prototypeOf transient :: commands).map fun c => ⟨fun _ => true, c⟩)

theorem reachable_usesTransient (commands : List Command) :
    Reachable (usesTransient commands) :=
  (Reachable.new _ _ _).after _

/-- An instance that nobody roots keeps the prototype for one collection. -/
def droppedInstance : Heap := usesTransient [.allocInstance transient none ⟨⟨0⟩, 2, 0⟩]

/-- The second one forgets the prototype and frees it. -/
theorem two_collections_decide_droppedInstance :
    (droppedInstance.collect fun _ => false).classPrototype? ⟨0⟩ = some ⟨⟨0⟩, 2, 0⟩ ∧
    ((droppedInstance.collect fun _ => false).collect fun _ => false).classPrototype? ⟨0⟩ =
      none ∧
    ((droppedInstance.collect fun _ => false).collect fun _ => false).isValid ⟨⟨0⟩, 2, 0⟩ =
      false := by
  have reachable : Reachable droppedInstance := reachable_usesTransient _
  have ok := reachable.intact
  have unused : ¬ UsedByLive (fun _ => false) droppedInstance ⟨0⟩ := fun used =>
    absurd ((classInUse_collect_iff ok fun _ => false).mpr (Or.inr used)) (by decide +kernel)
  have cached : droppedInstance.classPrototype? ⟨0⟩ = some ⟨⟨0⟩, 2, 0⟩ := by decide +kernel
  obtain ⟨forgets, -⟩ := two_collections_decide reachable (fun _ => false)
    (fun _ => false) rfl cached
  obtain ⟨forgotten, freed⟩ := forgets unused
  have ok' : Intact ((droppedInstance.collect fun _ => false).unrecord ⟨0⟩) :=
    (ok.collect _).congr sameTable_withPrototypes
  refine ⟨by decide +kernel, forgotten, Bool.eq_false_iff.mpr fun valid => ?_⟩
  exact absurd ((isValid_collect_iff ok').mpr (freed.mp valid)) (by decide +kernel)

/-- The constructor of the class is a property of the prototype. -/
def ownConstructor : Heap :=
  usesTransient [.allocConstructor (some transient) none,
    .defineOwn ⟨⟨0⟩, 2, 0⟩ ⟨Text.ofString "constructor", .object ⟨⟨0⟩, 3, 0⟩, .none⟩]

/-- **A prototype that keeps itself.**  The class is not held, and no object that uses it is
alive without the shared prototypes, nor is the prototype.  Still two collections keep it. -/
theorem not_released_ownConstructor :
    Reachable ownConstructor ∧
    ¬ UsedByLive (fun _ => false) (ownConstructor.withPrototypes []) ⟨0⟩ ∧
    ¬ Alive (fun _ => false) ((ownConstructor.collect fun _ => false).withPrototypes [])
      (.object ⟨⟨0⟩, 2, 0⟩) ∧
    ownConstructor.classPrototype? ⟨0⟩ = some ⟨⟨0⟩, 2, 0⟩ ∧
    ((ownConstructor.collect fun _ => false).collect fun _ => false).classPrototype? ⟨0⟩ =
      some ⟨⟨0⟩, 2, 0⟩ ∧
    ((ownConstructor.collect fun _ => false).collect fun _ => false).isValid ⟨⟨0⟩, 2, 0⟩ =
      true := by
  have reachable : Reachable ownConstructor := reachable_usesTransient _
  have ok := reachable.intact
  have uncached : Intact (ownConstructor.withPrototypes []) :=
    ok.congr sameTable_withPrototypes
  have uncached' : Intact ((ownConstructor.collect fun _ => false).withPrototypes []) :=
    (ok.collect _).congr sameTable_withPrototypes
  refine ⟨reachable, fun used => ?_, fun alive => ?_, by decide +kernel, by decide +kernel,
    by decide +kernel⟩
  · exact absurd ((classInUse_collect_iff uncached fun _ => false).mpr (Or.inr used))
      (by decide +kernel)
  · exact absurd ((isValid_collect_iff uncached').mpr ⟨by decide +kernel, alive⟩)
      (by decide +kernel)

end HostObjects.Heap
