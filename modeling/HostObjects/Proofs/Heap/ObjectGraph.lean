import HostObjects.Proofs.Heap.Command

/-!
# References between objects

`GraphClosed` says that every prototype link and every object among the property
values names an object of the heap.  Together with the same fact about the shared
prototypes of classes it is the invariant `Sound`.

A collection keeps a sound heap sound, because what a live object refers to is
alive.  A placement and a store keep it sound if the object that is put in refers
to objects of the heap.  What may go wrong is that they are checked before a
collection and put in after it; so `makeRoom_state` says what making room can
do to a heap, and what was alive survives it (`isValid_makeRoom`).
-/

namespace HostObjects.Heap

variable {h h' : Heap} {held : ClassId → Bool}

/-- Every object refers to objects of the heap only. -/
def GraphClosed (h : Heap) : Prop :=
  ∀ o obj, h.object o = .ok obj → ∀ l ∈ obj.links, h.isValid l = true

/-- The heap is intact, and whatever refers to an object refers to one that is
there. -/
structure Sound (h : Heap) : Prop extends Intact h where
  /-- The objects refer to objects that are there. -/
  closed : GraphClosed h
  /-- The shared prototypes are there. -/
  shared_valid : ∀ id o, (id, o) ∈ h.classPrototypes → h.isValid o = true

theorem sound_new (id : HeapId) (limits : Limits) (mode : CollectionMode) :
    Sound (new id limits mode) where
  toIntact := intact_new id limits mode
  closed := by
    intro o obj found l mem
    obtain ⟨-, s, hs, -, hocc⟩ := object_eq_ok_iff.mp found
    -- The second object links to the first; the first has no links.
    have links : ∀ s ∈ (new id limits mode).slots, ∀ obj ∈ s.occupant,
        ∀ l ∈ obj.links, l = ⟨id, objectPrototypeIndex, 0⟩ := by
      simp [new, intrinsics, HostObject.links, HostObject.ordinary]
    rw [links s (Array.mem_of_getElem? hs) obj hocc l mem]
    exact (intact_new id limits mode).objectPrototype_valid
  shared_valid := fun _ _ mem => absurd mem List.not_mem_nil

/-! ### Shared prototypes -/

/-- The shared prototypes of classes are there. -/
def SharedValid (h : Heap) : Prop :=
  ∀ id o, (id, o) ∈ h.classPrototypes → h.isValid o = true

theorem place_classPrototypes (h : Heap) (obj : HostObject) :
    (h.place obj).2.classPrototypes = h.classPrototypes := by
  unfold place
  split <;> rfl

/-- A collection keeps the shared prototypes of the classes that are in use. -/
theorem sharedValid_collect (ok : Intact h) (shared : SharedValid h)
    (held : ClassId → Bool) : SharedValid (h.collect held) := by
  intro id o mem
  obtain ⟨mem, used⟩ := mem_prepared_classPrototypes_iff.mp mem
  have valid := shared id o mem
  exact (isValid_collect_iff ok).mpr ⟨valid, .classPrototype mem used valid⟩

theorem sharedValid_place (ok : Intact h) (shared : SharedValid h) (obj : HostObject) :
    SharedValid (h.place obj).2 := by
  intro id o mem
  rw [place_classPrototypes] at mem
  rw [isValid_place ok.freeIsEmpty, shared id o mem, Bool.or_true]

theorem sharedValid_store (shared : SharedValid h) {o : Handle} {obj : HostObject}
    (found : h.object o = .ok obj) (new : HostObject) :
    SharedValid (h.store o.index new) := by
  intro id p mem
  rw [isValid_store found]
  exact shared id p mem

/-! ### Steps -/

theorem Sound.beside (ok : Sound h) (same : SameTable h h')
    (shared : ∀ id o, (id, o) ∈ h'.classPrototypes → h.isValid o = true) : Sound h' where
  toIntact := ok.toIntact.congr same
  closed := by
    intro o obj found l mem
    rw [same.object] at found
    rw [same.isValid]
    exact ok.closed o obj found l mem
  shared_valid := by
    intro id o mem
    rw [same.isValid]
    exact shared id o mem

/-- **What a live object refers to is alive**, so a collection keeps the graph
closed. -/
theorem Sound.collect (ok : Sound h) (held : ClassId → Bool) : Sound (h.collect held) where
  toIntact := ok.toIntact.collect held
  closed := by
    intro o obj found l mem
    obtain ⟨before, alive⟩ := object_of_object_collect ok.toIntact found
    have valid := ok.closed o obj before l mem
    refine (isValid_collect_iff ok.toIntact).mpr ⟨valid, ?_⟩
    rcases HostObject.mem_links_iff.mp mem with link | ⟨q, memq, value⟩
    · exact .prototype alive before link valid
    · exact .property alive before memq value valid
  shared_valid := sharedValid_collect ok.toIntact ok.shared_valid held

/-- A placement finds what was found before it. -/
theorem Sound.isValid_place (ok : Sound h) (obj : HostObject) {l : Handle}
    (valid : h.isValid l = true) : (h.place obj).2.isValid l = true := by
  rw [Heap.isValid_place ok.freeIsEmpty, valid, Bool.or_true]

theorem Sound.place (ok : Sound h) {obj : HostObject}
    (links : ∀ l ∈ obj.links, h.isValid l = true) : Sound (h.place obj).2 where
  toIntact := stable_intact.place obj h ok.toIntact
  closed := by
    intro o obj' found l mem
    rw [object_place ok.freeIsEmpty] at found
    split at found
    · cases found
      exact ok.isValid_place obj (links l mem)
    · exact ok.isValid_place obj (ok.closed o obj' found l mem)
  shared_valid := sharedValid_place ok.toIntact ok.shared_valid obj

theorem Sound.store (ok : Sound h) {o : Handle} {obj new : HostObject}
    (found : h.object o = .ok obj) (links : ∀ l ∈ new.links, h.isValid l = true) :
    Sound (h.store o.index new) where
  toIntact := stable_intact.store o obj new h found ok.toIntact
  closed := by
    intro p obj' found' l mem
    rw [isValid_store found]
    rw [object_store found] at found'
    split at found'
    · cases found'
      exact links l mem
    · exact ok.closed p obj' found' l mem
  shared_valid := sharedValid_store ok.shared_valid found new

/-! ### The links of changed objects -/

theorem mem_of_mem_update {ps : List Property} {new q : Property}
    (mem : q ∈ Property.update ps new) : q ∈ ps ∨ q = new := by
  induction ps with
  | nil => cases mem
  | cons p ps ih =>
      unfold Property.update at mem
      split at mem
      · rcases List.mem_cons.mp mem with rfl | mem
        · exact Or.inr rfl
        · exact Or.inl (List.mem_cons_of_mem _ mem)
      · rcases List.mem_cons.mp mem with rfl | mem
        · exact Or.inl List.mem_cons_self
        · exact (ih mem).imp (List.mem_cons_of_mem _) fun eq => eq

theorem mem_of_mem_remove {ps : List Property} {name : Text} {q : Property}
    (mem : q ∈ Property.remove ps name) : q ∈ ps := by
  induction ps with
  | nil => cases mem
  | cons p ps ih =>
      unfold Property.remove at mem
      split at mem
      · exact List.mem_cons_of_mem _ mem
      · rcases List.mem_cons.mp mem with rfl | mem
        · exact List.mem_cons_self
        · exact List.mem_cons_of_mem _ (ih mem)

theorem mem_links_withUpdated {p : Property} {obj : HostObject} {l : Handle}
    (mem : l ∈ (withUpdated p obj).links) : l ∈ obj.links ∨ p.value = .object l := by
  rw [HostObject.mem_links_iff] at mem ⊢
  rcases mem with link | ⟨q, memq, value⟩
  · exact Or.inl (Or.inl link)
  · rcases mem_of_mem_update memq with memq | rfl
    · exact Or.inl (Or.inr ⟨q, memq, value⟩)
    · exact Or.inr value

theorem mem_links_withAdded {p : Property} {obj : HostObject} {l : Handle} :
    l ∈ (withAdded p obj).links ↔ l ∈ obj.links ∨ p.value = .object l := by
  simp only [HostObject.mem_links_iff, withAdded, List.mem_append, List.mem_singleton]
  constructor
  · rintro (link | ⟨q, memq | rfl, value⟩)
    · exact Or.inl (Or.inl link)
    · exact Or.inl (Or.inr ⟨q, memq, value⟩)
    · exact Or.inr value
  · rintro ((link | ⟨q, memq, value⟩) | value)
    · exact Or.inl link
    · exact Or.inr ⟨q, Or.inl memq, value⟩
    · exact Or.inr ⟨p, Or.inr rfl, value⟩

theorem mem_links_withRemoved {name : Text} {obj : HostObject} {l : Handle}
    (mem : l ∈ (withRemoved name obj).links) : l ∈ obj.links := by
  rw [HostObject.mem_links_iff] at mem ⊢
  rcases mem with link | ⟨q, memq, value⟩
  · exact Or.inl link
  · exact Or.inr ⟨q, mem_of_mem_remove memq, value⟩

/-- A storable value is no object, or one of the heap. -/
theorem checkStorable_eq_ok_iff {v : Value} :
    h.checkStorable v = .ok () ↔ ∀ l, v = .object l → h.isValid l = true := by
  cases v with
  | object o =>
      refine check_eq_ok_iff.trans ⟨fun valid l eq => ?_, fun all => all o rfl⟩
      cases eq
      exact valid
  | _ => exact iff_of_true rfl fun _ eq => by cases eq

theorem isValid_of_checkStorable {v : Value} (storable : h.checkStorable v = .ok ())
    {l : Handle} (value : v = .object l) : h.isValid l = true :=
  checkStorable_eq_ok_iff.mp storable l value

/-! ### Making room -/

/-- **The three things that making room can do**: nothing, scheduling a collection,
and running one. -/
theorem makeRoom_state (held : ClassId → Bool) (bytes : Nat) (h : Heap) :
    (makeRoom held bytes h).2 = h ∨
      (makeRoom held bytes h).2 = { h with scheduled := true } ∨
      (makeRoom held bytes h).2 = h.collect held := by
  have state : (makeRoom held bytes h).2 =
      (h.answerThreshold held bytes).answerLimit held bytes := by
    unfold makeRoom
    dsimp only
    split <;> rfl
  rw [state]
  have threshold : h.answerThreshold held bytes = h ∨
      (h.answerThreshold held bytes = { h with scheduled := true }) ∨
      (h.answerThreshold held bytes = h.collect held ∧ h.mode = .synchronous) := by
    unfold answerThreshold
    cases h.mode <;> split <;> simp
  rcases threshold with eq | eq | ⟨eq, mode⟩ <;> rw [eq, answerLimit]
  · split
    · exact Or.inr (Or.inr rfl)
    · exact Or.inl rfl
  · split
    · -- The collection takes the schedule back.
      exact Or.inr (Or.inr rfl)
    · exact Or.inr (Or.inl rfl)
  · have mode' : (h.collect held).mode = .synchronous := mode
    simp [mode']

/-- Making room is beside the identity of the heap and the open views. -/
theorem makeRoom_beside (held : ClassId → Bool) (bytes : Nat) (h : Heap) :
    (makeRoom held bytes h).2.id = h.id ∧ (makeRoom held bytes h).2.stack = h.stack := by
  rcases makeRoom_state held bytes h with eq | eq | eq
  · rw [eq]
    exact ⟨rfl, rfl⟩
  · rw [eq]
    exact ⟨rfl, rfl⟩
  · rw [eq]
    exact ⟨rfl, rfl⟩

theorem Sound.makeRoom (ok : Sound h) (held : ClassId → Bool) (bytes : Nat) :
    Sound (makeRoom held bytes h).2 := by
  rcases makeRoom_state held bytes h with eq | eq | eq
  · rwa [eq]
  · rw [eq]
    exact ok.beside ⟨rfl, rfl, rfl, rfl, rfl⟩ ok.shared_valid
  · rw [eq]
    exact ok.collect held

/-- **Live objects survive making room.** -/
theorem Alive.isValid_makeRoom {l : Handle} (alive : Alive held h (.object l))
    (ok : Intact h) (bytes : Nat) : (makeRoom held bytes h).2.isValid l = true := by
  have valid : h.isValid l = true := alive.isPresent ok
  rcases makeRoom_state held bytes h with eq | eq | eq
  · rwa [eq]
  · rw [eq]
    exact valid
  · rw [eq]
    exact (isValid_collect_iff ok).mpr ⟨valid, alive⟩

end HostObjects.Heap
