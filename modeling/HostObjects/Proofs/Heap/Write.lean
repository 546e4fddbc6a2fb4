import HostObjects.Proofs.Heap.Failure

/-!
# What a write does to a heap

A write to an own property may make room, and then stores one object.  What it stores differs
from the object that was there in the one property (`OnlyProperty`), which now has the value
(`Wrote`).  Apart from that a write can do nothing at all, when the property is read-only, and
run a collection, when it fails: `afterWrite_putOwn` tells the three cases apart.
-/

namespace HostObjects

/-! ### Properties of other names -/

namespace Property

variable {ps : List Property} {new : Property}

/-- The properties of other names, in order. -/
def others (ps : List Property) (name : Text) : List Property :=
  ps.filter fun p => decide (p.name ≠ name)

theorem others_update (ps : List Property) (new : Property) :
    others (update ps new) new.name = others ps new.name := by
  induction ps with
  | nil => rfl
  | cons p ps ih =>
      unfold update
      split
      · next same => simp [others, same]
      · next other =>
          unfold others at ih ⊢
          rw [List.filter_cons, List.filter_cons, ih]

theorem others_append (ps : List Property) (new : Property) :
    others (ps ++ [new]) new.name = others ps new.name := by
  simp [others]

theorem find?_update {old : Property} (new : Property) (there : find? ps new.name = some old) :
    find? (update ps new) new.name = some new := by
  unfold find? at *
  induction ps with
  | nil => cases there
  | cons p ps ih =>
      unfold update
      split
      · simp
      · next other =>
          have differs : (p.name == new.name) = false := by simpa using other
          rw [List.find?_cons, differs] at there ⊢
          exact ih there

theorem find?_append (missing : find? ps new.name = none) :
    find? (ps ++ [new]) new.name = some new := by
  unfold find? at *
  rw [List.find?_append, missing]
  simp

end Property

namespace Heap

variable {h h' : Heap} {held : ClassId → Bool} {o : Handle} {name : Text} {p : Property}
  {obj : HostObject}

/-! ### One property of one object -/

/-- The heaps differ in nothing but a property of an object, and in the bytes that it counts. -/
structure OnlyProperty (o : Handle) (name : Text) (h h' : Heap) : Prop where
  others : ∀ q, q ≠ o → h'.object q = h.object q
  object : ∀ obj, h.object o = .ok obj → ∃ ps, h'.object o = .ok { obj with properties := ps } ∧
    Property.others ps name = Property.others obj.properties name
  slots : ∀ i, i ≠ o.index → h'.slots[i]? = h.slots[i]?
  rest : h' = { h with used := h'.used, slots := h'.slots }

/-- What a write makes of the property that was there, if one was: a write that names no
attributes keeps those of the property. -/
def writtenOver (p : Property) : Option Property → Property
  | some old => { p with attributes := writtenAttributes old.attributes p.attributes }
  | none => p

/-- A write has landed: the property has the value. -/
structure Wrote (o : Handle) (p : Property) (h h' : Heap) : Prop extends
    OnlyProperty o p.name h h' where
  written : ∃ old, h.ownProperty o p.name = .ok old ∧
    h'.ownProperty o p.name = .ok (some (writtenOver p old))

/-- Storing an object with other properties. -/
theorem onlyProperty_store (found : h.object o = .ok obj) {ps : List Property}
    (same : Property.others ps name = Property.others obj.properties name) :
    OnlyProperty o name h (h.store o.index { obj with properties := ps }) where
  others q other := by rw [object_store found, if_neg other]
  object obj' found' := by
    cases found.symm.trans found'
    exact ⟨ps, by rw [object_store found, if_pos rfl], same⟩
  slots i other := by rw [store_getElem?, if_neg (Ne.symm other)]
  rest := rfl

theorem ownProperty_of_object (found : h.object o = .ok obj) (name : Text) :
    h.ownProperty o name = .ok (Property.find? obj.properties name) := by
  rw [ownProperty, found]
  rfl

/-- The property is updated in its place. -/
theorem wrote_update {old : Property} (found : h.object o = .ok obj)
    (there : h.ownProperty o p.name = .ok (some old)) :
    Wrote o p h (h.store o.index (withUpdated (writtenOver p (some old)) obj)) where
  toOnlyProperty :=
    onlyProperty_store found (Property.others_update obj.properties (writtenOver p (some old)))
  written := by
    have own := Except.ok.inj ((ownProperty_of_object found p.name).symm.trans there)
    refine ⟨some old, there, ?_⟩
    rw [ownProperty_of_object (by rw [object_store found, if_pos rfl])]
    exact congrArg Except.ok (Property.find?_update (writtenOver p (some old)) own)

/-- The property is added at the end. -/
theorem wrote_add (found : h.object o = .ok obj) (missing : h.ownProperty o p.name = .ok none) :
    Wrote o p h (h.store o.index (withAdded p obj)) where
  toOnlyProperty := onlyProperty_store found (Property.others_append obj.properties p)
  written := by
    have own := Except.ok.inj ((ownProperty_of_object found p.name).symm.trans missing)
    refine ⟨none, missing, ?_⟩
    rw [ownProperty_of_object (by rw [object_store found, if_pos rfl])]
    exact congrArg Except.ok (Property.find?_append own)

/-! ### The three ends of a write -/

/-- Whether an own property of the name is there and read-only. -/
def isReadOnly (h : Heap) (o : Handle) (name : Text) : Bool :=
  match h.ownProperty o name with
  | .ok (some p) => p.attributes.readOnly
  | _ => false

/-- The heap in which something can be stored after room was made: as it was, with a collection
due, or collected. -/
def MadeRoom (held : ClassId → Bool) (h h' : Heap) : Prop :=
  h' = h ∨ h' = { h with scheduled := true } ∨ h' = h.collect held

/-- What a write leaves: where it fails, the heap or a collection of it; where the property is
read-only, the heap; and where it lands, the heap with the property written. -/
structure AfterWrite (held : ClassId → Bool) (o : Handle) (p : Property) (h : Heap)
    (r : Except Fault Unit) (h' : Heap) : Prop where
  failed : ∀ e, r = .error e → Swept held h h'
  refused : r = .ok () → h.isReadOnly o p.name = true → h' = h
  landed : r = .ok () → h.isReadOnly o p.name = false →
    ∃ roomy, MadeRoom held h roomy ∧ Wrote o p roomy h'

/-- What is found after room was made was there before. -/
theorem MadeRoom.object (room : MadeRoom held h h') (found : h'.object o = .ok obj) :
    h.object o = .ok obj := by
  rcases room with rfl | rfl | rfl
  · exact found
  · exact found
  · -- A collection empties slots and leaves the others as they are.
    obtain ⟨hid, t, ht, hg, hocc⟩ := object_eq_ok_iff.mp found
    rw [collect_getElem?, Option.map_eq_some_iff] at ht
    obtain ⟨s, hs, rfl⟩ := ht
    split at hocc
    · cases hocc
    · next keep =>
        rw [if_neg keep] at hg
        exact object_eq_ok_iff.mpr ⟨hid, s, hs, hg, hocc⟩

/-- A change that answers has stored an object. -/
theorem of_change_ok {f : HostObject → HostObject} (run : change o f h = (.ok (), h')) :
    ∃ obj, h.object o = .ok obj ∧ h' = h.store o.index (f obj) := by
  unfold change at run
  split at run
  · next obj found =>
      cases run
      exact ⟨obj, found, rfl⟩
  · cases run

/-- What is done after a reading is done to the same heap. -/
theorem of_reading_bind_ok {α β : Type} {f : Heap → Except Fault α} {next : α → HeapM β} {b : β}
    (run : (reading f >>= next) h = (.ok b, h')) : ∃ a, f h = .ok a ∧ next a h = (.ok b, h') := by
  obtain ⟨a, t, read, rest⟩ := of_bind_ok run
  obtain ⟨found, rfl⟩ := Prod.mk.inj read
  exact ⟨a, found, rest⟩

/-- A missing property is added where room was made. -/
theorem wrote_of_defineOwn (missing : h.ownProperty o p.name = .ok none)
    (run : defineOwn held o p h = (.ok (), h')) :
    ∃ roomy, MadeRoom held h roomy ∧ Wrote o p roomy h' := by
  unfold defineOwn at run
  obtain ⟨⟨⟩, -, run⟩ := of_reading_bind_ok run
  rw [reading_bind_of_ok missing] at run
  obtain ⟨⟨⟩, roomy, room, run⟩ := of_bind_ok run
  obtain ⟨obj, found, rfl⟩ := of_change_ok run
  have state := makeRoom_state held HostObject.propertyBytes h
  rw [room] at state
  refine ⟨roomy, state, wrote_add found ?_⟩
  rw [← missing, ownProperty_of_object found, ownProperty_of_object (MadeRoom.object state found)]

/-- A write that answers has found the property read-only, or has landed. -/
theorem of_putOwn_ok {landed : Bool} (run : putOwn held o p h = (.ok landed, h')) :
    (h.isReadOnly o p.name = true ∧ h' = h) ∨
      h.isReadOnly o p.name = false ∧ ∃ roomy, MadeRoom held h roomy ∧ Wrote o p roomy h' := by
  unfold putOwn at run
  obtain ⟨⟨⟩, -, run⟩ := of_reading_bind_ok run
  obtain ⟨old, own, run⟩ := of_reading_bind_ok run
  unfold isReadOnly
  rw [own]
  cases old with
  | none =>
      obtain ⟨⟨⟩, t, defined, run⟩ := of_bind_ok run
      cases run
      exact Or.inr ⟨rfl, wrote_of_defineOwn own defined⟩
  | some old =>
      dsimp only at run ⊢
      cases readOnly : old.attributes.readOnly with
      | true =>
          rw [if_pos readOnly] at run
          cases run
          exact Or.inl ⟨rfl, rfl⟩
      | false =>
          rw [if_neg (by simp [readOnly])] at run
          obtain ⟨⟨⟩, t, changed, run⟩ := of_bind_ok run
          obtain ⟨obj, found, rfl⟩ := of_change_ok changed
          cases run
          exact Or.inr ⟨rfl, h, Or.inl rfl, wrote_update found own⟩

/-- **A write is refused, fails or lands**, and whichever it does, it does nothing else. -/
theorem afterWrite_putOwn (held : ClassId → Bool) (o : Handle) (p : Property) (h : Heap) :
    AfterWrite held o p h ((putOwn held o p h).1.map fun _ => ()) (putOwn held o p h).2 := by
  rcases run : putOwn held o p h with ⟨e | landed, h'⟩
  · exact ⟨fun _ _ => (clean_putOwn o p h rfl).2 e h' run, nofun, nofun⟩
  · refine ⟨nofun, fun _ readOnly => ?_, fun _ open_ => ?_⟩ <;>
      rcases of_putOwn_ok run with ⟨refused, same⟩ | ⟨allowed, wrote⟩
    · exact same
    · rw [readOnly] at allowed
      cases allowed
    · rw [open_] at refused
      cases refused
    · exact wrote

/-- A read-only property refuses a write that could be stored. -/
theorem putOwn_of_readOnly (storable : h.checkStorable p.value = .ok ())
    (readOnly : h.isReadOnly o p.name = true) : putOwn held o p h = (.ok false, h) := by
  unfold isReadOnly at readOnly
  split at readOnly
  · next old own =>
      unfold putOwn
      rw [reading_bind_of_ok storable, reading_bind_of_ok own]
      dsimp only
      rw [if_pos readOnly]
      rfl
  · cases readOnly

end Heap

end HostObjects
