import HostObjects.Proofs.Heap.Lookup
import HostObjects.Heap.Collect
import Mathlib.Algebra.GroupWithZero.Nat
import Mathlib.Data.List.Nodup

/-!
# The representation of a heap

`Consistent` is what holds of a heap whenever no collection is under way: there
is one mark a slot and none is set, the free list names every empty slot once and
nothing else, every slot counts the bytes of what lies in it, and the heap counts
the sum.  The count is kept up by adding and subtracting differences, so the
invariant is also what makes every subtraction exact.

The slots change in three ways only, and each keeps the invariant: an object is
put in the place of another (`Consistent.store`), an object is placed in an empty
slot (`Consistent.place`), and slots are emptied by a sweep, whatever the marks
say (`Consistent.sweep`).
-/

namespace HostObjects.Heap

variable {h h' : Heap}

/-- The representation invariant of a heap. -/
structure Consistent (h : Heap) : Prop where
  /-- There is one mark a slot. -/
  marks_size : h.marks.size = h.slots.size
  /-- No mark is set. -/
  marks_clear : ∀ i : Nat, h.marks[i]? ≠ some true
  /-- No index is twice on the free list. -/
  free_nodup : h.free.Nodup
  /-- The free list has the index of every empty slot and no other. -/
  mem_free_iff : ∀ i, i ∈ h.free ↔ ∃ s, h.slots[i]? = some s ∧ s.occupant = none
  /-- An empty slot counts nothing. -/
  bytes_of_empty : ∀ (i : Nat) s, h.slots[i]? = some s → s.occupant = none → s.bytes = 0
  /-- An occupied slot counts its object and the properties of the object. -/
  bytes_of_occupied : ∀ (i : Nat) s obj, h.slots[i]? = some s → s.occupant = some obj →
    s.bytes = HostObject.baseBytes + obj.properties.length * HostObject.propertyBytes
  /-- The heap counts the sum. -/
  used_eq : h.used = (h.slots.toList.map Slot.bytes).sum

theorem Consistent.freeIsEmpty (con : Consistent h) : FreeIsEmpty h :=
  fun i mem => (con.mem_free_iff i).mp mem

/-- A new heap is consistent. -/
theorem consistent_new (id : HeapId) (limits : Limits) (mode : CollectionMode) :
    Consistent (new id limits mode) where
  marks_size := rfl
  marks_clear := by
    intro i
    rcases i with _ | _ | i <;> simp [new]
  free_nodup := List.nodup_nil
  mem_free_iff := by
    intro i
    rcases i with _ | _ | i <;> simp [new, intrinsics]
  bytes_of_empty := by
    intro i s hs hocc
    rcases i with _ | _ | i <;> simp [new, intrinsics] at hs <;> simp [← hs] at hocc
  bytes_of_occupied := by
    intro i s obj hs hocc
    rcases i with _ | _ | i <;> simp [new, intrinsics] at hs <;> subst hs <;>
      simp only [Option.some.injEq] at hocc <;> subst hocc <;> rfl
  used_eq := by simp [new, intrinsics]

/-- The invariant speaks of the slots, the marks, the free list and the count. -/
theorem Consistent.congr (con : Consistent h) (hslots : h'.slots = h.slots)
    (hmarks : h'.marks = h.marks) (hfree : h'.free = h.free) (hused : h'.used = h.used) :
    Consistent h' where
  marks_size := by rw [hmarks, hslots]; exact con.marks_size
  marks_clear := by rw [hmarks]; exact con.marks_clear
  free_nodup := by rw [hfree]; exact con.free_nodup
  mem_free_iff := by rw [hfree, hslots]; exact con.mem_free_iff
  bytes_of_empty := by rw [hslots]; exact con.bytes_of_empty
  bytes_of_occupied := by rw [hslots]; exact con.bytes_of_occupied
  used_eq := by rw [hused, hslots]; exact con.used_eq

/-! ### Sums of bytes -/

/-- Changing one term of a sum changes the sum by the difference. -/
theorem sum_map_modify (b : Slot → Nat) (f : Slot → Slot) (ss : List Slot) {i : Nat}
    {s : Slot} (hs : ss[i]? = some s) :
    ((ss.modify i f).map b).sum + b s = (ss.map b).sum + b (f s) := by
  induction ss generalizing i with
  | nil => simp at hs
  | cons t ss ih =>
      cases i with
      | zero =>
          simp only [List.getElem?_cons_zero, Option.some.injEq] at hs
          subst hs
          simp only [List.modify_zero_cons, List.map_cons, List.sum_cons]
          omega
      | succ i =>
          have := ih (by simpa using hs)
          simp only [List.modify_succ_cons, List.map_cons, List.sum_cons]
          omega

/-- A sum splits into the terms that pass a test and those that do not. -/
theorem sum_map_filter_add (p : Nat → Bool) (f : Nat → Nat) (l : List Nat) :
    ((l.filter p).map f).sum + (l.map fun i => if p i then 0 else f i).sum =
      (l.map f).sum := by
  induction l with
  | nil => rfl
  | cons i l ih =>
      by_cases hp : p i = true <;> simp [hp] <;> omega

/-- Subtracting terms one by one is subtracting their sum. -/
theorem foldl_sub_eq (f : Nat → Nat) (l : List Nat) (n : Nat) :
    l.foldl (fun n i => n - f i) n = n - (l.map f).sum := by
  induction l generalizing n with
  | nil => rfl
  | cons i l ih =>
      rw [List.foldl_cons, ih, List.map_cons, List.sum_cons]
      omega

/-- The sum over the slots as a sum over the indexes. -/
theorem sum_bytes_eq_sum_range (h : Heap) :
    (h.slots.toList.map Slot.bytes).sum =
      ((List.range h.slots.size).map h.bytesAt).sum := by
  congr 1
  apply List.ext_getElem
  · simp
  · intro i hi _
    have bound : i < h.slots.size := by simpa using hi
    simp [bytesAt, bound]

/-! ### Storing and placing -/

/-- **An object may be put into any slot**, in the place of another or not, if the
free list loses the slot and the count moves by the difference in bytes. -/
theorem Consistent.occupy (con : Consistent h) {i : Nat} {s : Slot} {obj : HostObject}
    (hs : h.slots[i]? = some s)
    (hslots : h'.slots = h.slots.modify i fun s => s.occupy obj)
    (hmarks : h'.marks = h.marks) (hnodup : h'.free.Nodup)
    (hfree : ∀ j, j ∈ h'.free ↔ j ∈ h.free ∧ j ≠ i)
    (hused : h'.used + s.bytes = h.used + obj.size) : Consistent h' := by
  have same : h'.slots[i]? = some (s.occupy obj) := by
    rw [hslots, Array.getElem?_modify, if_pos rfl, hs]
    rfl
  have other : ∀ j, j ≠ i → h'.slots[j]? = h.slots[j]? := by
    intro j hj
    rw [hslots, Array.getElem?_modify, if_neg (Ne.symm hj)]
  constructor
  case marks_size =>
    rw [hmarks, con.marks_size, hslots, Array.size_modify]
  case marks_clear =>
    rw [hmarks]
    exact con.marks_clear
  case free_nodup => exact hnodup
  case mem_free_iff =>
    intro j
    by_cases hj : j = i
    · subst hj
      simp [hfree, same, Slot.occupy]
    · rw [hfree, other j hj, ← con.mem_free_iff]
      exact ⟨And.left, fun mem => ⟨mem, hj⟩⟩
  case bytes_of_empty =>
    intro j t ht hnone
    by_cases hj : j = i
    · rw [hj, same, Option.some.injEq] at ht
      subst ht
      cases hnone
    · rw [other j hj] at ht
      exact con.bytes_of_empty j t ht hnone
  case bytes_of_occupied =>
    intro j t obj' ht hobj'
    by_cases hj : j = i
    · rw [hj, same, Option.some.injEq] at ht
      subst ht
      cases hobj'
      rfl
    · rw [other j hj] at ht
      exact con.bytes_of_occupied j t obj' ht hobj'
  case used_eq =>
    have sum := sum_map_modify Slot.bytes (fun t => t.occupy obj) h.slots.toList
      (i := i) (s := s) (by simpa using hs)
    rw [hslots, Array.toList_modify]
    rw [con.used_eq] at hused
    simp only [Slot.occupy] at sum ⊢
    omega

/-- **A store keeps the invariant.** -/
theorem Consistent.store (con : Consistent h) {o : Handle} {obj : HostObject}
    (found : h.object o = .ok obj) (new : HostObject) :
    Consistent (h.store o.index new) := by
  obtain ⟨-, s, hs, -, hocc⟩ := object_eq_ok_iff.mp found
  refine con.occupy hs rfl rfl con.free_nodup ?_ ?_
  · intro j
    refine ⟨fun mem => ⟨mem, ?_⟩, And.left⟩
    rintro rfl
    obtain ⟨t, ht, hnone⟩ := (con.mem_free_iff _).mp mem
    rw [hs, Option.some.injEq] at ht
    subst ht
    rw [hocc] at hnone
    cases hnone
  · -- The old bytes are part of the count, so nothing is cut off at zero.
    have sum := sum_map_modify Slot.bytes Slot.vacate h.slots.toList
      (i := o.index) (s := s) (by simpa using hs)
    have hbytes : h.bytesAt o.index = s.bytes := by simp [bytesAt, hs]
    have hused := con.used_eq
    simp only [Heap.store, rebalance, hbytes]
    simp only [Slot.vacate] at sum
    split <;> omega

/-- **A placement keeps the invariant.** -/
theorem Consistent.place (con : Consistent h) (obj : HostObject) :
    Consistent (h.place obj).2 := by
  rcases place_cases con.freeIsEmpty obj with ⟨i, rest, s, hfree, hs, hocc, heq⟩ | ⟨-, heq⟩
  · rw [heq]
    have nodup := con.free_nodup
    rw [hfree, List.nodup_cons] at nodup
    refine con.occupy (s := s) hs rfl rfl nodup.2 ?_ ?_
    · intro j
      rw [hfree, List.mem_cons]
      constructor
      · exact fun mem => ⟨Or.inr mem, fun hj => nodup.1 (hj ▸ mem)⟩
      · exact fun mem => mem.1.resolve_left mem.2
    · rw [con.bytes_of_empty i s hs hocc]
      rfl
  · -- The slot is new, and behind all others.
    rw [heq]
    have slot : ∀ (j : Nat) (t : Slot),
        (h.slots.push ⟨0, some obj, obj.size⟩)[j]? = some t →
        t = ⟨0, some obj, obj.size⟩ ∨ h.slots[j]? = some t := by
      intro j t ht
      rw [Array.getElem?_push] at ht
      split at ht
      · exact Or.inl (Option.some.inj ht).symm
      · exact Or.inr ht
    constructor
    case marks_size => simpa using con.marks_size
    case marks_clear =>
      intro j
      rw [Array.getElem?_push]
      split
      · simp
      · exact con.marks_clear j
    case free_nodup => exact con.free_nodup
    case mem_free_iff =>
      intro j
      refine (con.mem_free_iff j).trans ⟨?_, ?_⟩
      · rintro ⟨t, ht, hnone⟩
        have bound := (Array.getElem?_eq_some_iff.mp ht).1
        refine ⟨t, ?_, hnone⟩
        rw [Array.getElem?_push, if_neg (Nat.ne_of_lt bound)]
        exact ht
      · rintro ⟨t, ht, hnone⟩
        rcases slot j t ht with rfl | ht
        · cases hnone
        · exact ⟨t, ht, hnone⟩
    case bytes_of_empty =>
      intro j t ht hnone
      rcases slot j t ht with rfl | ht
      · cases hnone
      · exact con.bytes_of_empty j t ht hnone
    case bytes_of_occupied =>
      intro j t obj' ht hobj'
      rcases slot j t ht with rfl | ht
      · cases hobj'
        rfl
      · exact con.bytes_of_occupied j t obj' ht hobj'
    case used_eq =>
      simp [con.used_eq]

/-! ### Sweeping -/

theorem isGarbage_iff {marks : Array Bool} {i : Nat} {s : Slot} :
    isGarbage marks i s = true ↔ s.occupant.isSome = true ∧ marks[i]? ≠ some true := by
  unfold isGarbage Slot.isOccupied
  cases hm : marks[i]? with
  | none => simp
  | some m => cases m <;> simp

theorem mem_garbage_iff {marks : Array Bool} {i : Nat} :
    i ∈ h.garbage marks ↔ ∃ s, h.slots[i]? = some s ∧ isGarbage marks i s = true := by
  simp only [garbage, List.mem_filter, List.mem_range, Option.any_eq_true]
  constructor
  · exact And.right
  · rintro ⟨s, hs, hg⟩
    exact ⟨(Array.getElem?_eq_some_iff.mp hs).1, s, hs, hg⟩

theorem nodup_garbage (h : Heap) (marks : Array Bool) : (h.garbage marks).Nodup :=
  List.nodup_range.filter _

/-- **A sweep empties the garbage and leaves every other slot as it is.** -/
theorem sweep_getElem? (h : Heap) (marks : Array Bool) (i : Nat) :
    (h.sweep marks).slots[i]? =
      h.slots[i]?.map fun s => if isGarbage marks i s then s.vacate else s := by
  simp [sweep, pruneEdges, emptySlots]

@[simp] theorem sweep_slots_size (h : Heap) (marks : Array Bool) :
    (h.sweep marks).slots.size = h.slots.size := by
  simp [sweep, pruneEdges, emptySlots]

/-- What a sweep subtracts is what the garbage counts. -/
theorem sum_bytes_sweep (h : Heap) (marks : Array Bool) :
    ((h.garbage marks).map h.bytesAt).sum +
        ((h.sweep marks).slots.toList.map Slot.bytes).sum =
      (h.slots.toList.map Slot.bytes).sum := by
  rw [sum_bytes_eq_sum_range, sum_bytes_eq_sum_range, sweep_slots_size]
  rw [← sum_map_filter_add (fun i => h.slots[i]?.any fun s => isGarbage marks i s)
    h.bytesAt (List.range h.slots.size)]
  congr 3
  funext i
  simp only [bytesAt, sweep_getElem?]
  cases h.slots[i]? with
  | none => simp
  | some s => by_cases hg : isGarbage marks i s = true <;> simp [hg, Slot.vacate]

/-- **A sweep keeps the invariant**, whatever the marks are. -/
theorem Consistent.sweep (con : Consistent h) (marks : Array Bool) :
    Consistent (h.sweep marks) := by
  -- A slot after the sweep was emptied by it, or is as before and no garbage.
  have slot : ∀ (j : Nat) (t : Slot), (h.sweep marks).slots[j]? = some t →
      (∃ s, h.slots[j]? = some s ∧ isGarbage marks j s = true ∧ t = s.vacate) ∨
      (h.slots[j]? = some t ∧ isGarbage marks j t = false) := by
    intro j t ht
    rw [sweep_getElem?, Option.map_eq_some_iff] at ht
    obtain ⟨s, hs, ht⟩ := ht
    by_cases hg : isGarbage marks j s = true
    · rw [if_pos hg] at ht
      exact Or.inl ⟨s, hs, hg, ht.symm⟩
    · rw [if_neg hg] at ht
      subst ht
      exact Or.inr ⟨hs, Bool.eq_false_iff.mpr hg⟩
  have hfree : (h.sweep marks).free = (h.garbage marks).reverse ++ h.free := rfl
  constructor
  case marks_size =>
    rw [sweep_slots_size]
    simp [Heap.sweep, pruneEdges, emptySlots]
  case marks_clear =>
    intro j
    simp [Heap.sweep, pruneEdges, emptySlots, Array.getElem?_replicate]
  case free_nodup =>
    rw [hfree, List.nodup_append]
    refine ⟨List.nodup_reverse.mpr (nodup_garbage h marks), con.free_nodup, ?_⟩
    rintro i hi j hj rfl
    obtain ⟨s, hs, hg⟩ := mem_garbage_iff.mp (List.mem_reverse.mp hi)
    obtain ⟨t, ht, hnone⟩ := (con.mem_free_iff i).mp hj
    rw [hs, Option.some.injEq] at ht
    subst ht
    simp [isGarbage_iff, hnone] at hg
  case mem_free_iff =>
    intro j
    rw [hfree, List.mem_append, List.mem_reverse, mem_garbage_iff, con.mem_free_iff]
    constructor
    · rintro (⟨s, hs, hg⟩ | ⟨s, hs, hnone⟩)
      · exact ⟨s.vacate, by simp [sweep_getElem?, hs, hg], rfl⟩
      · exact ⟨s, by simp [sweep_getElem?, hs, isGarbage_iff, hnone], hnone⟩
    · rintro ⟨t, ht, hnone⟩
      rcases slot j t ht with ⟨s, hs, hg, -⟩ | ⟨ht, -⟩
      · exact Or.inl ⟨s, hs, hg⟩
      · exact Or.inr ⟨t, ht, hnone⟩
  case bytes_of_empty =>
    intro j t ht hnone
    rcases slot j t ht with ⟨s, -, -, rfl⟩ | ⟨ht, -⟩
    · rfl
    · exact con.bytes_of_empty j t ht hnone
  case bytes_of_occupied =>
    intro j t obj ht hobj
    rcases slot j t ht with ⟨s, -, -, rfl⟩ | ⟨ht, -⟩
    · cases hobj
    · exact con.bytes_of_occupied j t obj ht hobj
  case used_eq =>
    have sum := sum_bytes_sweep h marks
    have hused : (h.sweep marks).used =
        h.used - ((h.garbage marks).map h.bytesAt).sum := foldl_sub_eq _ _ _
    rw [hused, con.used_eq]
    omega

end HostObjects.Heap
