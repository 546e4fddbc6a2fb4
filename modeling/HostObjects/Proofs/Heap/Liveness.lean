import HostObjects.Proofs.Heap.Marking
import HostObjects.Proofs.Heap.Representation

/-!
# What a collection keeps

`Alive` says what a collection is to keep, without the marker: the least set of
objects and host nodes that has the six kinds of roots and is closed under
prototype links, own property values and external edges.  The classes held from
outside the heap are a parameter, as in the collection itself.

The main facts are that a slot is garbage for the marks of a collection exactly
if its object is not alive (`isGarbage_iff_not_alive`), and what follows for
handles: a live object is found as before (`object_collect_of_alive`), any other
handle finds nothing (`object_collect_of_not_alive`), and no handle finds anything
new (`object_of_object_collect`).
-/

namespace HostObjects.Heap

variable {h : Heap} {held : ClassId → Bool}

/-- The objects and host nodes that a collection keeps. -/
inductive Alive (held : ClassId → Bool) (h : Heap) : Node → Prop
  | objectPrototype : Alive held h (.object h.objectPrototype)
  | functionPrototype : Alive held h (.object h.functionPrototype)
  | stack {o : Handle} (mem : .object o ∈ h.stack.toList) (valid : h.isValid o = true) :
      Alive held h (.object o)
  | root {o : Handle} (mem : some (.object o) ∈ h.roots.toList)
      (valid : h.isValid o = true) : Alive held h (.object o)
  | pin {o : Handle} (mem : o ∈ h.pins) (valid : h.isValid o = true) :
      Alive held h (.object o)
  | classPrototype {id : ClassId} {o : Handle} (mem : (id, o) ∈ h.classPrototypes)
      (used : h.classInUse held id = true) (valid : h.isValid o = true) :
      Alive held h (.object o)
  | hostRoot {k : HostNode} (mem : k ∈ h.hostRoots) : Alive held h (.host k)
  | prototype {o p : Handle} {obj : HostObject} (alive : Alive held h (.object o))
      (found : h.object o = .ok obj) (link : obj.prototype = some p)
      (valid : h.isValid p = true) : Alive held h (.object p)
  | property {o p : Handle} {obj : HostObject} {q : Property}
      (alive : Alive held h (.object o)) (found : h.object o = .ok obj)
      (mem : q ∈ obj.properties) (value : q.value = .object p)
      (valid : h.isValid p = true) : Alive held h (.object p)
  | edgeToObject {n : Node} {p : Handle} (alive : Alive held h n)
      (mem : (n, .object p) ∈ h.edges) (valid : h.isValid p = true) :
      Alive held h (.object p)
  | edgeToHost {n : Node} {k : HostNode} (alive : Alive held h n)
      (mem : (n, .host k) ∈ h.edges) : Alive held h (.host k)

/-- The heap between collections: its representation is consistent, and its two
intrinsic prototypes are there. -/
structure Intact (h : Heap) : Prop extends Consistent h where
  /-- The prototype of plain objects is there. -/
  objectPrototype_valid : h.isValid h.objectPrototype = true
  /-- The prototype of functions is there. -/
  functionPrototype_valid : h.isValid h.functionPrototype = true

theorem Alive.isPresent (ok : Intact h) {n : Node} (alive : Alive held h n) :
    h.IsPresent n := by
  cases alive with
  | objectPrototype => exact ok.objectPrototype_valid
  | functionPrototype => exact ok.functionPrototype_valid
  | hostRoot | edgeToHost => trivial
  | stack _ valid | root _ valid | pin _ valid | classPrototype _ _ valid
  | prototype _ _ _ valid | property _ _ _ _ valid | edgeToObject _ _ valid => exact valid

theorem HostObject.mem_links_iff {obj : HostObject} {l : Handle} :
    l ∈ obj.links ↔
      obj.prototype = some l ∨ ∃ q ∈ obj.properties, q.value = .object l := by
  have object? : ∀ v : Value, v.object? = some l ↔ v = .object l := by
    intro v
    cases v <;> simp [Value.object?]
  simp [HostObject.links, object?]

/-! ### The heap as the marker finds it -/

/-- The heap in which a collection marks: counted, and without the shared
prototypes of classes that are not in use. -/
def prepared (held : ClassId → Bool) (h : Heap) : Heap :=
  { h with collections := h.collections + 1, scheduled := false }.forgetPrototypes held

theorem collect_eq_sweep (held : ClassId → Bool) (h : Heap) :
    h.collect held = (h.prepared held).sweep (h.prepared held).marked.marks := rfl

@[simp] theorem prepared_object (held : ClassId → Bool) (h : Heap) :
    (h.prepared held).object = h.object := rfl

theorem Consistent.prepared (con : Consistent h) (held : ClassId → Bool) :
    Consistent (h.prepared held) :=
  con.congr rfl rfl rfl rfl

theorem object_mem_rootNodes_iff {o : Handle} :
    .object o ∈ h.rootNodes ↔
      .object o ∈ h.stack.toList ∨ some (.object o) ∈ h.roots.toList ∨ o ∈ h.pins ∨
        o = h.objectPrototype ∨ o = h.functionPrototype ∨
        ∃ id, (id, o) ∈ h.classPrototypes := by
  have object? : ∀ v : Value, v.object? = some o ↔ v = .object o := by
    intro v
    cases v <;> simp [Value.object?]
  have root? : ∀ v : Option Value, v.bind Value.object? = some o ↔ v = some (.object o) := by
    intro v
    cases v <;> simp [object?]
  simp [rootNodes, rootObjects, object?, root?]

theorem host_mem_rootNodes_iff {k : HostNode} :
    .host k ∈ h.rootNodes ↔ k ∈ h.hostRoots := by
  simp [rootNodes]

theorem mem_prepared_classPrototypes_iff {id : ClassId} {o : Handle} :
    (id, o) ∈ (h.prepared held).classPrototypes ↔
      (id, o) ∈ h.classPrototypes ∧ h.classInUse held id = true := by
  simp [prepared, forgetPrototypes, classInUse]

/-- **Alive is reached from the roots** of the prepared heap. -/
theorem alive_iff_reachedFrom (ok : Intact h) {n : Node} :
    Alive held h n ↔ ReachedFrom (h.prepared held) (h.prepared held).rootNodes n := by
  constructor
  · intro alive
    -- Each kind of root is a root node, each kind of reference a reference.
    induction alive with
    | objectPrototype =>
        refine .start (object_mem_rootNodes_iff.mpr ?_) ok.objectPrototype_valid
        exact Or.inr (Or.inr (Or.inr (Or.inl rfl)))
    | functionPrototype =>
        refine .start (object_mem_rootNodes_iff.mpr ?_) ok.functionPrototype_valid
        exact Or.inr (Or.inr (Or.inr (Or.inr (Or.inl rfl))))
    | stack mem valid => exact .start (object_mem_rootNodes_iff.mpr (Or.inl mem)) valid
    | root mem valid =>
        exact .start (object_mem_rootNodes_iff.mpr (Or.inr (Or.inl mem))) valid
    | pin mem valid =>
        exact .start (object_mem_rootNodes_iff.mpr (Or.inr (Or.inr (Or.inl mem)))) valid
    | classPrototype mem used valid =>
        refine .start (object_mem_rootNodes_iff.mpr ?_) valid
        exact Or.inr (Or.inr (Or.inr (Or.inr (Or.inr
          ⟨_, mem_prepared_classPrototypes_iff.mpr ⟨mem, used⟩⟩))))
    | hostRoot mem => exact .start (host_mem_rootNodes_iff.mpr mem) trivial
    | prototype _ found link valid ih =>
        refine .next ih (Or.inl ?_) valid
        rw [linksOf_object (by simpa using found)]
        exact List.mem_map_of_mem (HostObject.mem_links_iff.mpr (Or.inl link))
    | property _ found mem value valid ih =>
        refine .next ih (Or.inl ?_) valid
        rw [linksOf_object (by simpa using found)]
        exact List.mem_map_of_mem (HostObject.mem_links_iff.mpr (Or.inr ⟨_, mem, value⟩))
    | edgeToObject _ mem valid ih => exact .next ih (Or.inr mem) valid
    | edgeToHost _ mem ih => exact .next ih (Or.inr mem) trivial
  · intro reached
    induction reached with
    | @start n mem present =>
        cases n with
        | host k =>
            have mem := host_mem_rootNodes_iff.mp mem
            exact .hostRoot mem
        | object o =>
            rcases object_mem_rootNodes_iff.mp mem with mem | mem | mem | rfl | rfl | ⟨id, mem⟩
            · exact .stack mem present
            · exact .root mem present
            · exact .pin mem present
            · exact .objectPrototype
            · exact .functionPrototype
            · obtain ⟨mem, used⟩ := mem_prepared_classPrototypes_iff.mp mem
              exact .classPrototype mem used present
    | @next n m _ refers present ih =>
        rcases refers with link | edge
        · cases n with
          | host k => exact absurd link List.not_mem_nil
          | object o =>
              obtain ⟨obj, found⟩ := isValid_iff.mp (ih.isPresent ok)
              rw [linksOf_object (by simpa using found)] at link
              obtain ⟨l, mem, rfl⟩ := List.mem_map.mp link
              rcases HostObject.mem_links_iff.mp mem with proto | ⟨q, memq, value⟩
              · exact .prototype ih found proto present
              · exact .property ih found memq value present
        · cases m with
          | host k => exact .edgeToHost ih edge
          | object p => exact .edgeToObject ih edge present

/-! ### Garbage -/

/-- **A collection's garbage is what is not alive.** -/
theorem isGarbage_iff_not_alive (ok : Intact h) {o : Handle} (valid : h.isValid o = true)
    {s : Slot} (hs : h.slots[o.index]? = some s) :
    isGarbage (h.prepared held).marked.marks o.index s = true ↔
      ¬ Alive held h (.object o) := by
  have con := ok.toConsistent.prepared held
  have marked := Marking.isDone_run_iff con.marks_size con.marks_clear
    (n := .object o) valid
  obtain ⟨-, t, ht, -, hocc⟩ := isValid_iff_slot.mp valid
  rw [hs, Option.some.injEq] at ht
  subst ht
  rw [isGarbage_iff, alive_iff_reachedFrom ok, ← marked]
  exact ⟨And.right, fun notDone => ⟨hocc, notDone⟩⟩

theorem collect_getElem? (held : ClassId → Bool) (h : Heap) (i : Nat) :
    (h.collect held).slots[i]? =
      h.slots[i]?.map fun s =>
        if isGarbage (h.prepared held).marked.marks i s then s.vacate else s := by
  rw [collect_eq_sweep, sweep_getElem?]
  rfl

/-- A live object is found after a collection as before. -/
theorem object_collect_of_alive (ok : Intact h) {o : Handle} {obj : HostObject}
    (found : h.object o = .ok obj) (alive : Alive held h (.object o)) :
    (h.collect held).object o = .ok obj := by
  obtain ⟨hid, s, hs, hg, hocc⟩ := object_eq_ok_iff.mp found
  refine object_eq_ok_iff.mpr ⟨hid, s, ?_, hg, hocc⟩
  have keep : ¬ isGarbage (h.prepared held).marked.marks o.index s = true := by
    rw [isGarbage_iff_not_alive ok (isValid_of_object found) hs]
    exact not_not.mpr alive
  rw [collect_getElem?, hs, Option.map_some, if_neg keep]

/-- **Whatever a handle finds after a collection it found before**, and it was
alive. -/
theorem object_of_object_collect (ok : Intact h) {o : Handle} {obj : HostObject}
    (found : (h.collect held).object o = .ok obj) :
    h.object o = .ok obj ∧ Alive held h (.object o) := by
  obtain ⟨hid, t, ht, hg, hocc⟩ := object_eq_ok_iff.mp found
  rw [collect_getElem?, Option.map_eq_some_iff] at ht
  obtain ⟨s, hs, ht⟩ := ht
  split at ht
  · subst ht
    cases hocc
  · next keep =>
      subst ht
      have before : h.object o = .ok obj := object_eq_ok_iff.mpr ⟨hid, s, hs, hg, hocc⟩
      rw [isGarbage_iff_not_alive ok (isValid_of_object before) hs] at keep
      exact ⟨before, not_not.mp keep⟩

theorem isValid_collect_iff (ok : Intact h) {o : Handle} :
    (h.collect held).isValid o = true ↔
      h.isValid o = true ∧ Alive held h (.object o) := by
  constructor
  · intro valid
    obtain ⟨obj, found⟩ := isValid_iff.mp valid
    obtain ⟨before, alive⟩ := object_of_object_collect ok found
    exact ⟨isValid_of_object before, alive⟩
  · rintro ⟨valid, alive⟩
    obtain ⟨obj, found⟩ := isValid_iff.mp valid
    exact isValid_of_object (object_collect_of_alive ok found alive)

/-- An object that is not alive is gone after a collection. -/
theorem object_collect_of_not_alive (ok : Intact h) {o : Handle} {obj : HostObject}
    (found : h.object o = .ok obj) (dead : ¬ Alive held h (.object o)) :
    (h.collect held).object o = .error .staleHandle := by
  refine object_eq_stale (object_eq_ok_iff.mp found).1 ?_
  refine Bool.eq_false_iff.mpr fun valid => ?_
  exact dead ((isValid_collect_iff ok).mp valid).2

/-- **A collection keeps the heap intact.** -/
theorem Intact.collect (ok : Intact h) (held : ClassId → Bool) :
    Intact (h.collect held) where
  toConsistent := (ok.toConsistent.prepared held).sweep _
  objectPrototype_valid :=
    (isValid_collect_iff ok).mpr ⟨ok.objectPrototype_valid, .objectPrototype⟩
  functionPrototype_valid :=
    (isValid_collect_iff ok).mpr ⟨ok.functionPrototype_valid, .functionPrototype⟩

end HostObjects.Heap
