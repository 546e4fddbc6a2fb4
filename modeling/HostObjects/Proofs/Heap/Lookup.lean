import HostObjects.Heap.Allocate
import HostObjects.Heap.OwnProperty
import Mathlib.Tactic.Common

/-!
# What handles find

A handle finds an object by its heap, its slot and its generation.  This module
says so once, as `object_eq_ok_iff`, and then what the three operations on slots
do to what handles find: `store` replaces one object, `place` adds one in a slot
that was empty, and everything that leaves the slots alone leaves every handle
alone.

The facts about `place` need that the free list names empty slots only.  That is
a hypothesis here (`FreeIsEmpty`); the representation invariant provides it.
-/

namespace HostObjects.Heap

variable {h h' : Heap} {o p : Handle} {obj new : HostObject}

/-! ### Looking up -/

/-- Whether the slot at an index holds an object. -/
def isOccupiedAt (h : Heap) (index : Nat) : Bool := h.slots[index]?.any Slot.isOccupied

/-- The handle of what lies, or would lie, in a slot. -/
def handleAt (h : Heap) (index : Nat) (s : Slot) : Handle := ⟨h.id, index, s.generation⟩

/-- The generation of the slot at an index; a slot that is yet to be made has the
generation it will start with. -/
def generationAt (h : Heap) (index : Nat) : UInt32 :=
  (h.slots[index]?.map Slot.generation).getD 0

theorem isOccupiedAt_iff {index : Nat} :
    h.isOccupiedAt index = true ↔
      ∃ s obj, h.slots[index]? = some s ∧ s.occupant = some obj := by
  simp only [isOccupiedAt, Option.any_eq_true, Slot.isOccupied,
    Option.isSome_iff_exists]
  constructor
  · rintro ⟨s, hs, obj, hobj⟩
    exact ⟨s, obj, hs, hobj⟩
  · rintro ⟨s, obj, hs, hobj⟩
    exact ⟨s, hs, obj, hobj⟩

theorem occupant?_eq_some_iff {index : Nat} {generation : UInt32} :
    h.occupant? index generation = some obj ↔
      ∃ s, h.slots[index]? = some s ∧ s.generation = generation ∧
        s.occupant = some obj := by
  unfold occupant?
  cases hs : h.slots[index]? with
  | none => simp
  | some s =>
      by_cases hg : s.generation = generation <;> simp [hg]

/-- **A handle finds an object** iff it is a handle of the heap and its slot holds
the object under its generation. -/
theorem object_eq_ok_iff :
    h.object o = .ok obj ↔
      o.heap = h.id ∧ ∃ s, h.slots[o.index]? = some s ∧
        s.generation = o.generation ∧ s.occupant = some obj := by
  rw [← occupant?_eq_some_iff]
  unfold object
  by_cases hid : o.heap = h.id
  · cases hocc : h.occupant? o.index o.generation <;> simp [hid]
  · simp [hid]

theorem isValid_iff : h.isValid o = true ↔ ∃ obj, h.object o = .ok obj := by
  unfold isValid
  cases h.object o <;> simp [Except.isOk, Except.toBool]

/-- The fault of a handle that names no object: it is stale, or of another heap. -/
def rejection (h : Heap) (o : Handle) : Fault :=
  if o.heap = h.id then .staleHandle else .foreignHandle

/-- **A handle that is not valid is rejected**, and its heap says how. -/
theorem object_eq_rejection (gone : h.isValid o = false) :
    h.object o = .error (h.rejection o) := by
  unfold isValid object at gone
  unfold object rejection
  by_cases own : o.heap = h.id
  · rw [if_neg (not_not.mpr own)] at gone ⊢
    rw [if_pos own]
    cases found : h.occupant? o.index o.generation with
    | some obj =>
        rw [found] at gone
        cases gone
    | none => rfl
  · rw [if_pos own, if_neg own]

/-- A handle of the heap that finds nothing is stale. -/
theorem object_eq_stale (own : o.heap = h.id) (gone : h.isValid o = false) :
    h.object o = .error .staleHandle := by
  rw [object_eq_rejection gone, rejection, if_pos own]

theorem map_object_of_invalid {α : Type} (gone : h.isValid o = false) (f : HostObject → α) :
    (h.object o).map f = .error (h.rejection o) := by
  rw [object_eq_rejection gone]
  rfl

/-- What is read of an object is read of one that is there. -/
theorem map_object_eq_ok_iff {α : Type} {f : HostObject → α} {a : α} :
    (h.object o).map f = .ok a ↔ ∃ obj, h.object o = .ok obj ∧ f obj = a := by
  cases h.object o <;> simp [Except.map]

theorem check_of_invalid (gone : h.isValid o = false) :
    h.check o = .error (h.rejection o) := map_object_of_invalid gone _

theorem isValid_of_object (found : h.object o = .ok obj) : h.isValid o = true :=
  isValid_iff.mpr ⟨obj, found⟩

theorem isValid_of_map_object {α : Type} {f : HostObject → α} {a : α}
    (read : (h.object o).map f = .ok a) : h.isValid o = true := by
  obtain ⟨obj, found, -⟩ := map_object_eq_ok_iff.mp read
  exact isValid_of_object found

/-- Two valid handles with one slot are one handle. -/
theorem eq_of_isValid_of_index_eq (hp : h.isValid p = true) (ho : h.isValid o = true)
    (same : p.index = o.index) : p = o := by
  obtain ⟨_, foundp⟩ := isValid_iff.mp hp
  obtain ⟨_, foundo⟩ := isValid_iff.mp ho
  obtain ⟨hpid, s, hs, hsg, -⟩ := object_eq_ok_iff.mp foundp
  obtain ⟨hoid, t, ht, htg, -⟩ := object_eq_ok_iff.mp foundo
  rw [same, ht, Option.some.injEq] at hs
  subst hs
  cases p
  cases o
  simp_all

theorem isValid_iff_slot :
    h.isValid o = true ↔
      o.heap = h.id ∧ ∃ s, h.slots[o.index]? = some s ∧
        s.generation = o.generation ∧ s.occupant.isSome = true := by
  rw [isValid_iff]
  constructor
  · rintro ⟨obj, found⟩
    obtain ⟨hid, s, hs, hg, hocc⟩ := object_eq_ok_iff.mp found
    exact ⟨hid, s, hs, hg, by simp [hocc]⟩
  · rintro ⟨hid, s, hs, hg, hocc⟩
    obtain ⟨obj, hobj⟩ := Option.isSome_iff_exists.mp hocc
    exact ⟨obj, object_eq_ok_iff.mpr ⟨hid, s, hs, hg, hobj⟩⟩

/-- A handle is valid iff its slot is occupied and has its generation. -/
theorem isValid_iff_at :
    h.isValid o = true ↔
      o.heap = h.id ∧ h.isOccupiedAt o.index = true ∧
        h.generationAt o.index = o.generation := by
  rw [isValid_iff_slot]
  cases hs : h.slots[o.index]? with
  | none => simp [isOccupiedAt, hs]
  | some s => simp [isOccupiedAt, generationAt, hs, Slot.isOccupied, and_comm]

theorem check_eq_ok_iff : h.check o = .ok () ↔ h.isValid o = true := by
  unfold check isValid
  cases h.object o <;> simp [Except.map, Except.isOk, Except.toBool]

/-- An object's own handle finds it. -/
theorem object_handleAt {index : Nat} {s : Slot} (hs : h.slots[index]? = some s)
    (hocc : s.occupant = some obj) : h.object (h.handleAt index s) = .ok obj :=
  object_eq_ok_iff.mpr ⟨rfl, s, hs, rfl, hocc⟩

/-- What handles find depends on the identity of the heap and its slots only. -/
theorem object_congr (hid : h'.id = h.id) (hslots : h'.slots = h.slots) :
    h'.object = h.object := by
  funext o
  simp only [object, occupant?, hid, hslots]

theorem isValid_congr (hid : h'.id = h.id) (hslots : h'.slots = h.slots) :
    h'.isValid = h.isValid := by
  funext o
  simp only [isValid, object_congr hid hslots]

/-! ### Replacing an object -/

@[simp] theorem store_id (h : Heap) (i : Nat) : (h.store i new).id = h.id := rfl

theorem store_getElem? (h : Heap) (i j : Nat) :
    (h.store i new).slots[j]? =
      if i = j then h.slots[j]?.map (fun s => s.occupy new) else h.slots[j]? := by
  simp [store, Array.getElem?_modify]

theorem isOccupiedAt_store (found : h.object o = .ok obj) (j : Nat) :
    (h.store o.index new).isOccupiedAt j = h.isOccupiedAt j := by
  obtain ⟨-, s, hs, -, hocc⟩ := object_eq_ok_iff.mp found
  unfold isOccupiedAt
  rw [store_getElem?]
  split
  · next hj =>
      subst hj
      simp [hs, hocc, Slot.isOccupied, Slot.occupy]
  · rfl

theorem generationAt_store (h : Heap) (i j : Nat) :
    (h.store i new).generationAt j = h.generationAt j := by
  unfold generationAt
  rw [store_getElem?]
  split
  · cases h.slots[j]? <;> rfl
  · rfl

/-- **A store is seen by the one handle it was made through.** -/
theorem object_store (found : h.object o = .ok obj) (p : Handle) :
    (h.store o.index new).object p = if p = o then .ok new else h.object p := by
  obtain ⟨hid, s, hs, hg, hocc⟩ := object_eq_ok_iff.mp found
  by_cases hpo : p = o
  · subst hpo
    rw [if_pos rfl, object_eq_ok_iff]
    refine ⟨hid, s.occupy new, ?_, hg, rfl⟩
    rw [store_getElem?, if_pos rfl, hs]
    rfl
  · rw [if_neg hpo]
    by_cases hi : o.index = p.index
    · -- The same slot under another generation: neither heap has an object there.
      have hne : p.heap = h.id → s.generation ≠ p.generation := by
        intro hpid hpg
        apply hpo
        cases p
        cases o
        simp_all
      simp only [object, store_id]
      by_cases hpid : p.heap = h.id
      · simp [hpid, occupant?, store_getElem?, ← hi, hs, Slot.occupy, hne hpid]
      · simp [hpid]
    · simp only [object, store_id, occupant?, store_getElem?, if_neg hi]

theorem isValid_store (found : h.object o = .ok obj) (p : Handle) :
    (h.store o.index new).isValid p = h.isValid p := by
  unfold isValid
  rw [object_store found]
  split
  · next hpo => rw [hpo, found]; rfl
  · rfl

/-! ### Placing an object -/

/-- Every slot on the free list exists and is empty. -/
def FreeIsEmpty (h : Heap) : Prop :=
  ∀ i ∈ h.free, ∃ s, h.slots[i]? = some s ∧ s.occupant = none

/-- **The two ways of placing.**  An object goes into the first empty slot, or, if
there is none, into a new slot at the end. -/
theorem place_cases (empty : FreeIsEmpty h) (obj : HostObject) :
    (∃ i rest s, h.free = i :: rest ∧ h.slots[i]? = some s ∧ s.occupant = none ∧
      h.place obj = (h.handleAt i s,
        { h with
          free := rest
          used := h.used + obj.size
          slots := h.slots.modify i fun s => s.occupy obj })) ∨
    (h.free = [] ∧
      h.place obj = (⟨h.id, h.slots.size, 0⟩,
        { h with
          used := h.used + obj.size
          slots := h.slots.push ⟨0, some obj, obj.size⟩
          marks := h.marks.push false })) := by
  cases hfree : h.free with
  | nil =>
      refine Or.inr ⟨rfl, ?_⟩
      simp [place, reusable?, hfree]
  | cons i rest =>
      obtain ⟨s, hs, hocc⟩ := empty i (by simp [hfree])
      refine Or.inl ⟨i, rest, s, rfl, hs, hocc, ?_⟩
      simp [place, reusable?, hfree, hs, handleAt]

@[simp] theorem place_id (h : Heap) (obj : HostObject) : (h.place obj).2.id = h.id := by
  unfold place
  split <;> rfl

@[simp] theorem place_stack (h : Heap) (obj : HostObject) :
    (h.place obj).2.stack = h.stack := by
  unfold place
  split <;> rfl

@[simp] theorem place_reaped (h : Heap) (obj : HostObject) :
    (h.place obj).2.reaped = h.reaped := by
  unfold place
  split <;> rfl

@[simp] theorem place_fst_heap (h : Heap) (obj : HostObject) :
    (h.place obj).1.heap = h.id := by
  unfold place
  split <;> rfl

/-- What a placement does to the slots. -/
theorem place_getElem? (empty : FreeIsEmpty h) (obj : HostObject) (j : Nat) :
    (h.place obj).2.slots[j]? =
      if j = (h.place obj).1.index then
        some ⟨(h.place obj).1.generation, some obj, obj.size⟩
      else h.slots[j]? := by
  rcases place_cases empty obj with ⟨i, rest, s, -, hs, -, heq⟩ | ⟨-, heq⟩
  · rw [heq]
    by_cases hj : i = j
    · subst hj
      simp [handleAt, Array.getElem?_modify, hs, Slot.occupy]
    · simp [handleAt, Array.getElem?_modify, hj, Ne.symm hj]
  · rw [heq]
    exact Array.getElem?_push

/-- The slot to be used is empty, and its generation goes into the handle. -/
theorem place_fst (empty : FreeIsEmpty h) (obj : HostObject) :
    h.isOccupiedAt (h.place obj).1.index = false ∧
      (h.place obj).1.generation = h.generationAt (h.place obj).1.index := by
  rcases place_cases empty obj with ⟨i, rest, s, -, hs, hocc, heq⟩ | ⟨-, heq⟩
  · rw [heq]
    simp [handleAt, isOccupiedAt, generationAt, hs, hocc, Slot.isOccupied]
  · rw [heq]
    simp [isOccupiedAt, generationAt]

/-- A new handle names nothing before it is given out. -/
theorem not_isValid_place_fst (empty : FreeIsEmpty h) (obj : HostObject) :
    h.isValid (h.place obj).1 = false := by
  refine Bool.eq_false_iff.mpr fun valid => ?_
  have there := (isValid_iff_at.mp valid).2.1
  rw [(place_fst empty obj).1] at there
  cases there

theorem isOccupiedAt_place (empty : FreeIsEmpty h) (obj : HostObject) (j : Nat) :
    (h.place obj).2.isOccupiedAt j =
      (j == (h.place obj).1.index || h.isOccupiedAt j) := by
  unfold isOccupiedAt
  rw [place_getElem? empty]
  by_cases hj : j = (h.place obj).1.index <;> simp [hj, Slot.isOccupied]

theorem generationAt_place (empty : FreeIsEmpty h) (obj : HostObject) (j : Nat) :
    (h.place obj).2.generationAt j = h.generationAt j := by
  by_cases hj : j = (h.place obj).1.index
  · rw [hj, ← (place_fst empty obj).2]
    simp [generationAt, place_getElem? empty]
  · simp [generationAt, place_getElem? empty, hj]

/-- **A placement is seen by the handle it gives out.** -/
theorem object_place (empty : FreeIsEmpty h) (obj : HostObject) (p : Handle) :
    (h.place obj).2.object p =
      if p = (h.place obj).1 then .ok obj else h.object p := by
  rcases place_cases empty obj with ⟨i, rest, s, -, hs, hocc, heq⟩ | ⟨-, heq⟩
  · rw [heq]
    by_cases hp : p = h.handleAt i s
    · rw [if_pos hp, object_eq_ok_iff, hp]
      refine ⟨rfl, s.occupy obj, ?_, rfl, rfl⟩
      simp [handleAt, Array.getElem?_modify, hs]
    · rw [if_neg hp]
      by_cases hi : i = p.index
      · by_cases hpid : p.heap = h.id
        · have hne : s.generation ≠ p.generation := by
            intro hpg
            apply hp
            cases p
            simp_all [handleAt]
          simp [object, hpid, occupant?, Array.getElem?_modify, ← hi, hs, Slot.occupy, hne]
        · simp [object, hpid]
      · simp [object, occupant?, Array.getElem?_modify, hi]
  · rw [heq]
    by_cases hp : p = ⟨h.id, h.slots.size, 0⟩
    · rw [if_pos hp, object_eq_ok_iff, hp]
      exact ⟨rfl, ⟨0, some obj, obj.size⟩, by simp, rfl, rfl⟩
    · rw [if_neg hp]
      by_cases hi : p.index = h.slots.size
      · by_cases hpid : p.heap = h.id
        · have hne : (0 : UInt32) ≠ p.generation := by
            intro hpg
            apply hp
            cases p
            simp_all
          simp [object, hpid, occupant?, hi, hne]
        · simp [object, hpid]
      · have hpush : ∀ s : Slot, (h.slots.push s)[p.index]? = h.slots[p.index]? := by
          intro s
          rw [Array.getElem?_push, if_neg hi]
        simp only [object, occupant?, hpush]

theorem isValid_place (empty : FreeIsEmpty h) (obj : HostObject) (p : Handle) :
    (h.place obj).2.isValid p = (p == (h.place obj).1 || h.isValid p) := by
  unfold isValid
  rw [object_place empty]
  by_cases hp : p = (h.place obj).1 <;> simp [hp, Except.isOk, Except.toBool]

/-- The handle given out is valid. -/
theorem isValid_place_fst (empty : FreeIsEmpty h) (obj : HostObject) :
    (h.place obj).2.isValid (h.place obj).1 = true := by
  rw [isValid_place empty, beq_self_eq_true, Bool.true_or]

end HostObjects.Heap
