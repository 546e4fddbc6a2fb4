import HostObjects.Group.Basic
import HostObjects.Proofs.Heap.Command

/-!
# The census of a heap

Objects of a class are accounted for: each one that a command makes is in its slot or
among the dead that wait for their finalizers, and never in two places.  `Census made h`
says so of a heap, with the list of all that were made.  It compares lists up to their
order, so it counts: a handle that was given out twice, to two objects at different
times, is in the list twice.

A collection moves objects from their slots to the dead (`remains_collect`), a
placement adds one (`remains_place`), and all else leaves them where they are.  The
only command that makes objects of a class is the one that is told the class
(`census_run`).
-/

namespace HostObjects

/-- An object that waits for its finalizers, by its handle and its class, if it has
one. -/
def Reaped.instance? (r : Reaped) : Option (Handle × Class) :=
  r.object.ofClass.map fun c => (r.handle, c)

namespace Heap

variable {h h' : Heap} {held : ClassId → Bool} {made : List (Handle × Class)}

/-- The objects in a heap that have a class. -/
def instances (h : Heap) : List (Handle × Class) := h.remains.filterMap Reaped.instance?

/-- Whatever was made of a class is among the dead or in the heap. -/
def Census (made : List (Handle × Class)) (h : Heap) : Prop :=
  ((h.reaped ++ h.remains).filterMap Reaped.instance?).Perm made

/-! ### What is in the slots -/

theorem object_of_reap? {i : Nat} {r : Reaped} (found : h.reap? i = some r) :
    h.object r.handle = .ok r.object := by
  unfold reap? at found
  obtain ⟨s, slot, occupied⟩ := Option.bind_eq_some_iff.mp found
  obtain ⟨obj, there, rfl⟩ := Option.map_eq_some_iff.mp occupied
  exact object_eq_ok_iff.mpr ⟨rfl, s, slot, rfl, there⟩

theorem object_of_mem_remains {r : Reaped} (mem : r ∈ h.remains) :
    h.object r.handle = .ok r.object := by
  obtain ⟨i, -, found⟩ := List.mem_filterMap.mp mem
  exact object_of_reap? found

theorem reap?_eq_none {i : Nat} (vacant : h.isOccupiedAt i = false) : h.reap? i = none := by
  unfold reap?
  cases slot : h.slots[i]? with
  | none => rfl
  | some s =>
      have empty : s.occupant = none := by
        simpa [isOccupiedAt, slot, Slot.isOccupied] using vacant
      rw [Option.bind_some, empty]
      rfl

/-- What remains in a heap, looked for in more slots than there are. -/
theorem remains_eq (h : Heap) {n : Nat} (le : h.slots.size ≤ n) :
    h.remains = (List.range n).filterMap h.reap? := by
  obtain ⟨k, rfl⟩ := Nat.exists_eq_add_of_le le
  clear le
  induction k with
  | zero => rfl
  | succ k ih =>
      have beyond : h.reap? (h.slots.size + k) = none := by
        rw [reap?, Array.getElem?_eq_none (Nat.le_add_right _ _)]
        rfl
      rw [← Nat.add_assoc, List.range_succ, List.filterMap_append, ← ih,
        List.filterMap_cons_none beyond, List.filterMap_nil, List.append_nil]

theorem SameTable.remains (same : SameTable h h') : h'.remains = h.remains := by
  unfold Heap.remains reap?
  rw [same.slots, same.id]

theorem census_congr (same : SameTable h h') (reaped : h'.reaped = h.reaped)
    (census : Census made h) : Census made h' := by
  unfold Census
  rwa [same.remains, reaped]

/-! ### Collections -/

/-- The objects that a collection takes out of their slots. -/
def deadIn (held : ClassId → Bool) (h : Heap) : List Reaped :=
  ((h.prepared held).garbage (h.prepared held).marked.marks).filterMap h.reap?

theorem reaped_collect (held : ClassId → Bool) (h : Heap) :
    (h.collect held).reaped = h.reaped ++ h.deadIn held := rfl

theorem reap?_collect (held : ClassId → Bool) (h : Heap) (i : Nat) :
    (h.collect held).reap? i =
      if (h.slots[i]?.any fun s => isGarbage (h.prepared held).marked.marks i s) then none
      else h.reap? i := by
  unfold reap?
  rw [collect_getElem?]
  cases slot : h.slots[i]? with
  | none => rfl
  | some s =>
      rw [Option.map_some, Option.bind_some, Option.bind_some, Option.any_some]
      split
      · rfl
      · rfl

/-- **A collection moves objects from their slots to the dead.** -/
theorem remains_collect (held : ClassId → Bool) (h : Heap) :
    h.remains.Perm (h.deadIn held ++ (h.collect held).remains) := by
  have size : (h.collect held).slots.size = h.slots.size := by
    show (h.slots.mapIdx _).size = h.slots.size
    exact Array.size_mapIdx
  have kept : (h.collect held).remains =
      ((List.range h.slots.size).filter fun i => !(h.slots[i]?.any fun s =>
        isGarbage (h.prepared held).marked.marks i s)).filterMap h.reap? := by
    rw [List.filterMap_filter]
    unfold Heap.remains
    rw [size]
    refine List.filterMap_congr fun i _ => ?_
    rw [reap?_collect]
    split <;> simp_all
  rw [kept]
  unfold deadIn Heap.remains
  rw [← List.filterMap_append]
  exact (List.filter_append_perm _ _).symm.filterMap _

/-- What dies in a collection was in its slot before it, and is gone after it. -/
theorem of_mem_deadIn {r : Reaped} (mem : r ∈ h.deadIn held) :
    h.object r.handle = .ok r.object ∧ (h.collect held).isValid r.handle = false := by
  obtain ⟨i, garbage, found⟩ := List.mem_filterMap.mp mem
  refine ⟨object_of_reap? found, ?_⟩
  obtain ⟨s, slot, isGarbage⟩ := mem_garbage_iff.mp garbage
  have index : r.handle.index = i := by
    unfold reap? at found
    obtain ⟨_, -, occupied⟩ := Option.bind_eq_some_iff.mp found
    obtain ⟨_, -, rfl⟩ := Option.map_eq_some_iff.mp occupied
    rfl
  have vacated : (h.collect held).slots[i]? = some s.vacate := by
    have before : h.slots[i]? = some s := slot
    rw [collect_getElem?, before, Option.map_some, if_pos isGarbage]
  refine Bool.eq_false_iff.mpr fun valid => ?_
  obtain ⟨-, t, there, -, occupied⟩ := isValid_iff_slot.mp valid
  rw [index, vacated, Option.some.injEq] at there
  subst there
  cases occupied

theorem Census.collect (census : Census made h) (held : ClassId → Bool) :
    Census made (h.collect held) := by
  unfold Census
  rw [reaped_collect, List.append_assoc]
  exact (((remains_collect held h).symm.append_left h.reaped).filterMap _).trans census

/-! ### Placements -/

/-- One more place in a list at which something is found. -/
theorem perm_filterMap_insert {α : Type} {l : List Nat} (nodup : l.Nodup) {i : Nat}
    (mem : i ∈ l) {f g : Nat → Option α} {a : α} (before : f i = none)
    (after : g i = some a) (others : ∀ j, j ≠ i → g j = f j) :
    (l.filterMap g).Perm (a :: l.filterMap f) := by
  have first := List.perm_cons_erase mem
  have rest : (l.erase i).filterMap g = (l.erase i).filterMap f :=
    List.filterMap_congr fun j mem => others j (nodup.mem_erase_iff.mp mem).1
  have left := first.filterMap g
  have right := first.filterMap f
  rw [List.filterMap_cons_some after, rest] at left
  rw [List.filterMap_cons_none before] at right
  exact left.trans (right.symm.cons a)

/-- **A placement adds an object.** -/
theorem remains_place (empty : FreeIsEmpty h) (obj : HostObject) :
    (h.place obj).2.remains.Perm (⟨(h.place obj).1, obj⟩ :: h.remains) := by
  have slot := place_getElem? empty obj
  obtain ⟨vacant, -⟩ := place_fst empty obj
  have inside : (h.place obj).1.index < (h.place obj).2.slots.size := by
    have there := slot (h.place obj).1.index
    rw [if_pos rfl] at there
    exact (Array.getElem?_eq_some_iff.mp there).1
  have grown : h.slots.size ≤ (h.place obj).2.slots.size := by
    rcases place_cases empty obj with ⟨i, rest, s, -, -, -, eq⟩ | ⟨-, eq⟩
    · rw [eq]
      exact Nat.le_of_eq Array.size_modify.symm
    · rw [eq, Array.size_push]
      exact Nat.le_succ _
  have here : (h.place obj).2.reap? (h.place obj).1.index = some ⟨(h.place obj).1, obj⟩ := by
    unfold reap?
    rw [slot, if_pos rfl, place_id, ← place_fst_heap h obj]
    rfl
  have others : ∀ j, j ≠ (h.place obj).1.index → (h.place obj).2.reap? j = h.reap? j := by
    intro j other
    unfold reap?
    rw [slot, if_neg other, place_id]
  rw [remains_eq h grown]
  exact perm_filterMap_insert List.nodup_range (List.mem_range.mpr inside)
    (reap?_eq_none vacant) here others

theorem Census.place (census : Census made h) (empty : FreeIsEmpty h) (obj : HostObject) :
    Census (made ++ (obj.ofClass.map fun c => ((h.place obj).1, c)).toList)
      (h.place obj).2 := by
  have placed := (remains_place empty obj).append_left h.reaped
  have moved := placed.trans List.perm_middle
  unfold Census
  rw [place_reaped]
  refine (moved.filterMap _).trans ?_
  cases ofClass : obj.ofClass with
  | none =>
      have none : Reaped.instance? ⟨(h.place obj).1, obj⟩ = none := by
        rw [Reaped.instance?, ofClass]
        rfl
      rw [List.filterMap_cons_none none]
      exact census.trans (List.Perm.of_eq (List.append_nil made).symm)
  | some c =>
      have some : Reaped.instance? ⟨(h.place obj).1, obj⟩ = some ((h.place obj).1, c) := by
        rw [Reaped.instance?, ofClass]
        rfl
      rw [List.filterMap_cons_some some]
      exact (census.cons _).trans (List.perm_append_singleton _ made).symm

/-! ### Stores -/

/-- An object of the same class in the place of another. -/
theorem instances_store {o : Handle} {obj new : HostObject} (found : h.object o = .ok obj)
    (same : new.ofClass = obj.ofClass) : (h.store o.index new).instances = h.instances := by
  obtain ⟨-, s, slot, -, occupied⟩ := object_eq_ok_iff.mp found
  have size : (h.store o.index new).slots.size = h.slots.size := Array.size_modify
  unfold instances Heap.remains
  rw [size, List.filterMap_filterMap, List.filterMap_filterMap]
  refine List.filterMap_congr fun j _ => ?_
  unfold reap?
  rw [store_getElem?]
  split
  · next eq =>
      subst eq
      rw [slot]
      simp [occupied, Slot.occupy, Reaped.instance?, same]
  · rfl

theorem Census.store (census : Census made h) {o : Handle} {obj new : HostObject}
    (found : h.object o = .ok obj) (same : new.ofClass = obj.ofClass) :
    Census made (h.store o.index new) := by
  have kept := instances_store found same
  unfold instances at kept
  unfold Census at census ⊢
  rw [List.filterMap_append] at census ⊢
  rwa [kept]

/-! ### Commands -/

theorem classless_census (made : List (Handle × Class)) :
    Classless fun _ h => Intact h ∧ Census made h where
  collect _ held _ := fun ⟨ok, census⟩ => ⟨ok.collect held, census.collect held⟩
  place _ obj h plain := by
    rintro ⟨ok, census⟩
    have placed := census.place ok.freeIsEmpty obj
    rw [plain] at placed
    exact ⟨stable_intact.place obj h ok, (List.append_nil made) ▸ placed⟩
  store _ o obj new h found same := fun ⟨ok, census⟩ =>
    ⟨stable_intact.store o obj new h found ok, census.store found same⟩
  beside _ _ _ same reaped _ := fun ⟨ok, census⟩ =>
    ⟨ok.congr same, census_congr same reaped census⟩
  push _ _ _ := fun ⟨ok, census⟩ =>
    ⟨ok.congr ⟨rfl, rfl, rfl, rfl, rfl⟩, census_congr ⟨rfl, rfl, rfl, rfl, rfl⟩ rfl census⟩
  pop _ _ _ := fun ⟨ok, census⟩ =>
    ⟨ok.congr ⟨rfl, rfl, rfl, rfl, rfl⟩, census_congr ⟨rfl, rfl, rfl, rfl, rfl⟩ rfl census⟩

/-- The objects of a class that a command makes. -/
def Command.instances (held : ClassId → Bool) (h : Heap) : Command → List (Handle × Class)
  | allocInstance c data proto =>
    match Heap.allocInstance held c data proto h with
    | (.ok o, _) => [(o, c)]
    | (.error _, _) => []
  | _ => []

theorem census_allocInstance (held : ClassId → Bool) (c : Class) (data : Option PrivateData)
    (proto : Handle) (ok : Intact h) (census : Census made h) :
    Census (made ++ (Command.allocInstance c data proto).instances held h)
      ((Command.allocInstance c data proto).run held h) := by
  have room := ((classless_census made).quiet held).makeRoom #[]
    (HostObject.mk (some proto) (some c) .ordinary [] data).size h ⟨ok, census⟩
  unfold Command.instances Command.run Heap.allocInstance Heap.alloc
  dsimp only
  rw [bind_apply]
  rcases run : makeRoom held _ h with ⟨e | u, h'⟩
  · obtain ⟨-, kept⟩ := room.2 e h' run
    rwa [List.append_nil]
  · obtain ⟨ok', kept⟩ := room.1 u h' run
    exact kept.place ok'.freeIsEmpty _

/-- **Every command keeps the census**, with the objects that it made. -/
theorem census_run (held : ClassId → Bool) {c : Command} (notSettle : c ≠ .settle)
    (ok : Intact h) (census : Census made h) :
    Census (made ++ c.instances held h) (c.run held h) := by
  have plain : c.makesInstance = false → c.instances held h = [] := by
    intro noInstance
    cases c with
    | allocInstance => cases noInstance
    | _ => rfl
  cases noInstance : c.makesInstance with
  | true =>
      cases c with
      | allocInstance c data proto => exact census_allocInstance held c data proto ok census
      | _ => cases noInstance
  | false =>
      rw [plain noInstance, List.append_nil]
      cases moves : c.movesStack with
      | true =>
          obtain ⟨same, kept, -⟩ := c.run_beside held h (c.isBeside_of_movesStack moves)
          exact census_congr same kept census
      | false =>
          have start : Intact h ∧ Census made h := ⟨ok, census⟩
          exact ((classless_census made).run held (S := #[]) notSettle moves noInstance start).2

end Heap

end HostObjects
