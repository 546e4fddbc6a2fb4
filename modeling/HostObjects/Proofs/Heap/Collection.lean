import HostObjects.Proofs.Heap.Command

/-!
# What a collection does to a reachable heap

A collection keeps exactly the live objects, and every object it keeps it keeps
whole (`collect_keeps_alive`).  That handles without an object do no harm in the
root sets is part of the statement: two heaps that root the same objects are
collected alike, whatever else stands in their stacks, persistent roots and pins.
-/

namespace HostObjects.Heap

variable {h : Heap} {held : ClassId → Bool}

/-! ### Roots that matter -/

/-- The heap with other root sets. -/
def withRoots (h : Heap) (stack : Array Value) (roots : Array (Option Value))
    (pins : Counted Handle) : Heap :=
  { h with stack := stack, roots := roots, pins := pins }

/-- An object is in the stack, in a persistent root or among the pins. -/
def Roots (h : Heap) (o : Handle) : Prop :=
  .object o ∈ h.stack.toList ∨ some (.object o) ∈ h.roots.toList ∨ o ∈ h.pins

/-- The root sets have the same objects of the heap. -/
def RootsAlike (h h' : Heap) : Prop := ∀ o, h.isValid o = true → (h.Roots o ↔ h'.Roots o)

theorem alive_of_roots {o : Handle} (roots : h.Roots o) (valid : h.isValid o = true) :
    Alive held h (.object o) := by
  rcases roots with mem | mem | mem
  · exact .stack mem valid
  · exact .root mem valid
  · exact .pin mem valid

section Alike

variable {stack : Array Value} {roots : Array (Option Value)} {pins : Counted Handle}

theorem sameTable_withRoots : SameTable h (h.withRoots stack roots pins) :=
  ⟨rfl, rfl, rfl, rfl, rfl⟩

/-- Whatever is alive is alive with root sets that have the same objects. -/
theorem Alive.withRoots (alike : RootsAlike h (h.withRoots stack roots pins)) {n : Node}
    (alive : Alive held h n) : Alive held (h.withRoots stack roots pins) n := by
  induction alive with
  | objectPrototype => exact .objectPrototype
  | functionPrototype => exact .functionPrototype
  | stack mem valid => exact alive_of_roots ((alike _ valid).mp (Or.inl mem)) valid
  | root mem valid =>
      exact alive_of_roots ((alike _ valid).mp (Or.inr (Or.inl mem))) valid
  | pin mem valid =>
      exact alive_of_roots ((alike _ valid).mp (Or.inr (Or.inr mem))) valid
  | classPrototype mem used valid => exact .classPrototype mem used valid
  | hostRoot mem => exact .hostRoot mem
  | prototype _ found link valid ih => exact .prototype ih found link valid
  | property _ found mem value valid ih => exact .property ih found mem value valid
  | edgeToObject _ mem valid ih => exact .edgeToObject ih mem valid
  | edgeToHost _ mem ih => exact .edgeToHost ih mem

theorem alive_withRoots_iff (alike : RootsAlike h (h.withRoots stack roots pins))
    {n : Node} : Alive held (h.withRoots stack roots pins) n ↔ Alive held h n := by
  refine ⟨fun alive => ?_, Alive.withRoots alike⟩
  -- Putting the first root sets back is a change of the same kind.
  have back : RootsAlike (h.withRoots stack roots pins)
      ((h.withRoots stack roots pins).withRoots h.stack h.roots h.pins) :=
    fun o valid => (alike o valid).symm
  exact alive.withRoots back

end Alike

/-- An object that nothing refers to is not alive. -/
theorem not_alive_of_unreferenced {o : Handle} (notObject : o ≠ h.objectPrototype)
    (notFunction : o ≠ h.functionPrototype) (notRoot : ¬ h.Roots o)
    (notShared : ∀ id, (id, o) ∉ h.classPrototypes)
    (notLinked : ∀ p obj, h.object p = .ok obj → o ∉ obj.links)
    (notTarget : ∀ n, (n, .object o) ∉ h.edges) : ¬ Alive held h (.object o) := by
  intro alive
  cases alive with
  | objectPrototype => exact notObject rfl
  | functionPrototype => exact notFunction rfl
  | stack mem _ => exact notRoot (Or.inl mem)
  | root mem _ => exact notRoot (Or.inr (Or.inl mem))
  | pin mem _ => exact notRoot (Or.inr (Or.inr mem))
  | classPrototype mem _ _ => exact notShared _ mem
  | prototype _ found link _ =>
      exact notLinked _ _ found (HostObject.mem_links_iff.mpr (Or.inl link))
  | property _ found mem value _ =>
      exact notLinked _ _ found (HostObject.mem_links_iff.mpr (Or.inr ⟨_, mem, value⟩))
  | edgeToObject _ mem _ => exact notTarget _ mem

/-! ### Sweeps by the same garbage -/

/-- A sweep depends on what is garbage and not on the marks themselves. -/
theorem emptySlots_congr {marks marks' : Array Bool}
    (same : ∀ (i : Nat) s, h.slots[i]? = some s →
      isGarbage marks i s = isGarbage marks' i s) :
    h.emptySlots marks = h.emptySlots marks' := by
  have garbage : h.garbage marks = h.garbage marks' := by
    refine List.filter_congr fun i _ => ?_
    cases hs : h.slots[i]? with
    | none => rfl
    | some s => exact same i s hs
  have slots : (h.slots.mapIdx fun i s => if isGarbage marks i s then s.vacate else s) =
      h.slots.mapIdx fun i s => if isGarbage marks' i s then s.vacate else s := by
    apply Array.ext_getElem?
    intro i
    simp only [Array.getElem?_mapIdx]
    cases hs : h.slots[i]? with
    | none => rfl
    | some s => simp only [Option.map_some, same i s hs]
  simp only [emptySlots, garbage, slots]

/-- Root sets with the same objects lead to the same collection. -/
theorem collect_withRoots (ok : Intact h) {stack : Array Value}
    {roots : Array (Option Value)} {pins : Counted Handle}
    (alike : RootsAlike h (h.withRoots stack roots pins)) :
    (h.withRoots stack roots pins).collect held =
      (h.collect held).withRoots stack roots pins := by
  have ok' : Intact (h.withRoots stack roots pins) := ok.congr sameTable_withRoots
  -- The marks of the two may differ, but garbage is what lies in a slot and is not alive.
  have garbage : ∀ (i : Nat) s, h.slots[i]? = some s →
      isGarbage ((h.withRoots stack roots pins).prepared held).marked.marks i s =
        isGarbage (h.prepared held).marked.marks i s := by
    intro i s hs
    cases hocc : s.occupant with
    | none => simp [isGarbage, Slot.isOccupied, hocc]
    | some obj =>
        have valid := isValid_of_object (object_handleAt hs hocc)
        rw [Bool.eq_iff_iff]
        exact (isGarbage_iff_not_alive ok' (o := h.handleAt i s) valid hs).trans
          ((not_congr (alive_withRoots_iff alike)).trans
            (isGarbage_iff_not_alive ok valid hs).symm)
  rw [collect_eq_sweep, collect_eq_sweep]
  have swept : (h.prepared held).emptySlots
        ((h.withRoots stack roots pins).prepared held).marked.marks =
      (h.prepared held).emptySlots (h.prepared held).marked.marks :=
    emptySlots_congr garbage
  simp only [sweep, ← swept]
  rfl

/-! ### The collection -/

/-- **A collection of a reachable heap keeps exactly the live objects**, each as it
was: its prototype, class, behaviour, properties and private data.  What else is in
the root sets, stale handles and handles of other heaps, makes no difference. -/
theorem collect_keeps_alive (reachable : Reachable h) (held : ClassId → Bool) :
    (∀ o obj, h.object o = .ok obj → Alive held h (.object o) →
      (h.collect held).object o = .ok obj) ∧
    (∀ o obj, h.object o = .ok obj → ¬ Alive held h (.object o) →
      (h.collect held).object o = .error .staleHandle) ∧
    (∀ o obj, (h.collect held).object o = .ok obj → h.object o = .ok obj) ∧
    ∀ stack roots pins, RootsAlike h (h.withRoots stack roots pins) →
      (h.withRoots stack roots pins).collect held =
        (h.collect held).withRoots stack roots pins := by
  have ok := reachable.intact
  refine ⟨?_, ?_, ?_, ?_⟩
  · exact fun o obj found alive => object_collect_of_alive ok found alive
  · exact fun o obj found dead => object_collect_of_not_alive ok found dead
  · exact fun o obj found => (object_of_object_collect ok found).1
  · exact fun stack roots pins alike => collect_withRoots ok alike

/-- A heap with two plain objects, the first of them pinned. -/
def onePinned : Heap :=
  after (new ⟨0⟩ .standard .synchronous)
    (turnsOf [.allocPlain, .allocPlain, .pin (.object ⟨⟨0⟩, 2, 0⟩)])

theorem reachable_onePinned : Reachable onePinned :=
  (Reachable.new _ _ _).after _

/-- A collection of that heap keeps the pinned object and frees the other. -/
theorem collect_onePinned :
    (onePinned.collect fun _ => false).object ⟨⟨0⟩, 2, 0⟩ =
      .ok (.ordinary (some onePinned.objectPrototype)) ∧
    (onePinned.collect fun _ => false).object ⟨⟨0⟩, 3, 0⟩ = .error .staleHandle := by
  obtain ⟨keeps, frees, -, -⟩ := collect_keeps_alive reachable_onePinned fun _ => false
  refine ⟨keeps _ _ rfl (.pin List.mem_cons_self rfl), frees _ _ rfl ?_⟩
  refine not_alive_of_unreferenced (by decide) (by decide) ?_
    (fun _ => List.not_mem_nil) ?_ fun _ => List.not_mem_nil
  · rintro (mem | mem | mem)
    · cases mem
    · cases mem
    · exact absurd mem (by decide)
  · intro p obj found
    obtain ⟨-, s, hs, -, hobj⟩ := object_eq_ok_iff.mp found
    have unlinked : ∀ s ∈ onePinned.slots, ∀ obj ∈ s.occupant,
        (⟨⟨0⟩, 3, 0⟩ : Handle) ∉ obj.links := by decide
    exact unlinked s (Array.mem_of_getElem? hs) obj hobj

end HostObjects.Heap
