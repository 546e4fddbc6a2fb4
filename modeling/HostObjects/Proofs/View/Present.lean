import HostObjects.Proofs.Heap.Footprint
import HostObjects.Proofs.View.Face

/-!
# Heaps that present a chain

`Presents` says which faces the objects on a prototype chain have in a heap, and what some
further objects are that are rooted.  Collections, placements and stores elsewhere leave all
of that as it is, since it speaks of live objects only; a store at an object of the chain
changes the face of that one (`Presents.store`).

`Answers` is the contract of an operation that fails for want of memory only, and then only if
the bytes that it needs are more than there are.  The operations on own properties are
contracts of this kind, in which the faces change as those of `Face` do.
-/

namespace HostObjects

open Heap

/-! ### Contracts with a cost -/

section Contracts

variable {S α β : Type} {heapOf : S → Heap} {cost more : Nat} {P P' : S → Prop}
  {act : Operating Fault S α} {Q Q' : α → S → Prop} {next : α → Operating Fault S β}
  {R : β → S → Prop}

/-- The heap has the same limits and counts some bytes more at most. -/
structure Heap.Spends (cost : Nat) (h h' : Heap) : Prop where
  limits : h'.limits = h.limits
  used : h'.used ≤ h.used + cost

/-- The operation answers, unless the heap has less room than it needs; then it may run out of
memory. -/
def Answers (heapOf : S → Heap) (cost : Nat) (P : S → Prop) (act : Operating Fault S α)
    (Q : α → S → Prop) : Prop :=
  ∀ s, P s →
    ((act s).1 = .error .outOfMemory ∧
      (heapOf s).limits.maxBytes < (heapOf s).used + cost) ∨
    ∃ a s', act s = (.ok a, s') ∧ Q a s' ∧ (heapOf s).Spends cost (heapOf s')

namespace Answers

theorem imp (before : ∀ s, P' s → P s) (after : ∀ a s, Q a s → Q' a s)
    (answers : Answers heapOf cost P act Q) : Answers heapOf cost P' act Q' := by
  intro s hs
  refine (answers s (before s hs)).imp_right ?_
  rintro ⟨a, s', run, post, spends⟩
  exact ⟨a, s', run, after a s' post, spends⟩

theorem pure {a : α} (post : ∀ s, P s → Q a s) :
    Answers heapOf 0 P (Pure.pure a : Operating Fault S α) Q :=
  fun s hs => Or.inr ⟨a, s, rfl, post s hs, rfl, Nat.le_refl _⟩

theorem bind (first : Answers heapOf cost P act Q)
    (second : ∀ a, Answers heapOf more (Q a) (next a) R) :
    Answers heapOf (cost + more) P (act >>= next) R := by
  intro s hs
  rw [bind_apply]
  rcases first s hs with ⟨failed, full⟩ | ⟨a, t, run, mid, limits, used⟩
  · rcases run : act s with ⟨e | a, t⟩ <;> rw [run] at failed <;> cases failed
    exact Or.inl ⟨rfl, by omega⟩
  · rw [run]
    rcases second a t mid with ⟨failed, full⟩ | ⟨b, u, run, post, limits', used'⟩
    · rw [limits] at full
      exact Or.inl ⟨failed, by omega⟩
    · exact Or.inr ⟨b, u, run, post, limits'.trans limits, by omega⟩

theorem map {f : α → β} (post : ∀ a s, Q a s → R (f a) s)
    (answers : Answers heapOf cost P act Q) : Answers heapOf cost P (f <$> act) R := by
  intro s hs
  rw [map_apply]
  rcases answers s hs with ⟨failed, full⟩ | ⟨a, t, run, mid, spends⟩
  · rcases run : act s with ⟨e | a, t⟩ <;> rw [run] at failed <;> cases failed
    exact Or.inl ⟨rfl, full⟩
  · exact Or.inr ⟨f a, t, by rw [run], post a t mid, spends⟩

end Answers

end Contracts

variable {h h' : Heap} {S S' : Array Value} {W : List (Handle × Content)} {o p q f : Handle}
  {chain : List Handle} {F : Handle → Face} {obj new : HostObject} {v : Value} {c : Content}
  {held : ClassId → Bool}

/-! ### Contents in a heap -/

/-- What the object under a handle is. -/
def HostObject.content (obj : HostObject) (f : Handle) : Content :=
  match obj.ofClass, obj.behaviour with
  | none, .function name call => .function name call
  | _, _ => .value (.object f)

theorem HostObject.content_eq_function_iff {name : Text} {call : HostFunction} :
    obj.content f = .function name call ↔ obj.Runs name call := by
  obtain ⟨prototype, ofClass, behaviour, properties, privateData⟩ := obj
  constructor
  · cases ofClass <;> cases behaviour <;> intro same <;> cases same
    exact ⟨rfl, rfl⟩
  · rintro ⟨plain, runs⟩
    cases plain
    cases runs
    rfl

/-- The object has the same class, behaviour and link. -/
structure HostObject.SameKind (obj new : HostObject) : Prop where
  ofClass : new.ofClass = obj.ofClass
  behaviour : new.behaviour = obj.behaviour
  prototype : new.prototype = obj.prototype

theorem HostObject.SameKind.content (same : obj.SameKind new) (f : Handle) :
    new.content f = obj.content f := by
  unfold HostObject.content
  rw [same.ofClass, same.behaviour]

namespace Heap

/-- The value up to the identity of functions. -/
def content (h : Heap) : Value → Content
  | .object f =>
    match h.object f with
    | .ok obj => obj.content f
    | .error _ => .value (.object f)
  | v => .value v

theorem content_of_object (found : h.object f = .ok obj) :
    h.content (.object f) = obj.content f := by
  simp only [content, found]

/-- A value whose content is a function is a function object that runs it. -/
theorem exists_runs_of_content {name : Text} {call : HostFunction}
    (same : h.content v = .function name call) :
    ∃ f obj, v = .object f ∧ h.object f = .ok obj ∧ obj.Runs name call := by
  cases v with
  | object f =>
      cases found : h.object f with
      | error e =>
          simp only [content, found] at same
          cases same
      | ok obj =>
          rw [content_of_object found] at same
          exact ⟨f, obj, rfl, found, HostObject.content_eq_function_iff.mp same⟩
  | _ => cases same

/-- The property up to the identity of functions. -/
def shown (h : Heap) (p : Property) : Shown := ⟨p.name, h.content p.value, p.attributes⟩

/-- The face of an object. -/
def face (h : Heap) (p : Handle) : Face :=
  match h.object p with
  | .ok obj => ⟨obj.ofClass, obj.properties.map h.shown⟩
  | .error _ => ⟨none, []⟩

theorem face_of_object (found : h.object p = .ok obj) :
    h.face p = ⟨obj.ofClass, obj.properties.map h.shown⟩ := by
  unfold face
  rw [found]

/-! ### Heaps with given faces -/

/-- The heap has the stack, the objects on the chain have the faces and link to objects of
the heap, and what is watched is there and has the contents. -/
structure Presents (S : Array Value) (W : List (Handle × Content)) (o : Handle)
    (chain : List Handle) (F : Handle → Face) (h : Heap) : Prop where
  intact : Intact h
  stack : h.stack = S
  linked : PrototypeChain h o chain
  faces : ∀ p ∈ chain, h.face p = F p
  closed : ∀ p ∈ chain, ∀ obj, h.object p = .ok obj → ∀ l ∈ obj.links, h.isValid l = true
  watched : ∀ e ∈ W, h.isValid e.1 = true ∧ h.content (.object e.1) = e.2

/-- The start of the chain is rooted, and so is what is watched. -/
structure Rooted (S : Array Value) (W : List (Handle × Content)) (o : Handle) : Prop where
  start : .object o ∈ S
  watched : ∀ e ∈ W, .object e.1 ∈ S

theorem Rooted.push (rooted : Rooted S W o) (v : Value) : Rooted (S.push v) W o where
  start := Array.mem_push_of_mem _ rooted.start
  watched e mem := Array.mem_push_of_mem _ (rooted.watched e mem)

theorem Rooted.watch (rooted : Rooted S W o) (f : Handle) (c : Content) :
    Rooted (S.push (.object f)) ((f, c) :: W) o where
  start := (rooted.push _).start
  watched e mem := by
    rcases List.mem_cons.mp mem with rfl | mem
    · exact Array.mem_push_self
    · exact (rooted.push _).watched e mem

/-- The objects that the faces and what is watched depend on. -/
def Concerns (h : Heap) (W : List (Handle × Content)) (chain : List Handle) (p : Handle) : Prop :=
  p ∈ chain ∨ (∃ q ∈ chain, ∃ obj, h.object q = .ok obj ∧ p ∈ obj.links) ∨ ∃ e ∈ W, e.1 = p

namespace Presents

/-- What is rooted is alive, and so is what it links to. -/
theorem alive (ok : Presents S W o chain F h) (rooted : Rooted S W o)
    (concerns : h.Concerns W chain p) : Alive held h (.object p) := by
  have root : ∀ q, .object q ∈ S → h.isValid q = true → Alive held h (.object q) :=
    fun q mem valid => .stack (by rw [ok.stack]; exact Array.mem_def.mp mem) valid
  have onChain := ok.linked.alive (root o rooted.start ok.linked.isValid_start)
  rcases concerns with mem | ⟨q, mem, obj, found, link⟩ | ⟨e, mem, rfl⟩
  · exact onChain p mem
  · have valid := ok.closed q mem obj found p link
    rcases HostObject.mem_links_iff.mp link with proto | ⟨r, memr, value⟩
    · exact (onChain q mem).prototype found proto valid
    · exact (onChain q mem).property found memr value valid
  · exact root _ (rooted.watched e mem) (ok.watched e mem).1

/-- Heaps in which the objects that matter are alike present the same. -/
theorem transfer (ok : Presents S W o chain F h) (intact : Intact h') (stack : h'.stack = S')
    (objects : ∀ p obj, h.Concerns W chain p → h.object p = .ok obj →
      ∃ new, h'.object p = .ok new ∧ obj.SameKind new ∧
        (p ∈ chain → new.properties = obj.properties)) :
    Presents S' W o chain F h' := by
  have contents : ∀ p, h.Concerns W chain p → h.isValid p = true →
      h'.isValid p = true ∧ h'.content (.object p) = h.content (.object p) := by
    intro p concerns valid
    obtain ⟨obj, found⟩ := isValid_iff.mp valid
    obtain ⟨new, found', same, -⟩ := objects p obj concerns found
    refine ⟨isValid_of_object found', ?_⟩
    rw [content_of_object found, content_of_object found', same.content]
  have onChain : ∀ p ∈ chain, ∃ obj new, h.object p = .ok obj ∧ h'.object p = .ok new ∧
      obj.SameKind new ∧ new.properties = obj.properties := by
    intro p mem
    obtain ⟨obj, found⟩ := isValid_iff.mp (ok.linked.isValid p mem)
    obtain ⟨new, found', same, properties⟩ := objects p obj (Or.inl mem) found
    exact ⟨obj, new, found, found', same, properties mem⟩
  have links : ∀ p ∈ chain, ∀ new, h'.object p = .ok new → ∀ l ∈ new.links,
      h.Concerns W chain l ∧ h.isValid l = true := by
    intro p mem new found' l link
    obtain ⟨obj, new', found, found'', same, properties⟩ := onChain p mem
    cases found'.symm.trans found''
    have link : l ∈ obj.links := by
      unfold HostObject.links at link ⊢
      rwa [same.prototype, properties] at link
    exact ⟨Or.inr (Or.inl ⟨p, mem, obj, found, link⟩), ok.closed p mem obj found l link⟩
  refine ⟨intact, stack, ok.linked.congr fun p mem => ?_, fun p mem => ?_,
    fun p mem new found l link => ?_, fun e mem => ?_⟩
  · obtain ⟨obj, new, found, found', same, -⟩ := onChain p mem
    rw [prototype, prototype, found, found']
    exact congrArg Except.ok same.prototype
  · obtain ⟨obj, new, found, found', same, properties⟩ := onChain p mem
    rw [← ok.faces p mem, face_of_object found, face_of_object found', same.ofClass, properties]
    congr 1
    refine List.map_congr_left fun q memq => ?_
    -- An object among the values is one that the chain links to.
    have value : h'.content q.value = h.content q.value := by
      cases value : q.value with
      | object f =>
          have link : f ∈ new.links :=
            HostObject.mem_links_iff.mpr (Or.inr ⟨q, properties ▸ memq, value⟩)
          obtain ⟨concerns, valid⟩ := links p mem new found' f link
          exact (contents f concerns valid).2
      | _ => rfl
    rw [shown, shown, value]
  · obtain ⟨concerns, valid⟩ := links p mem new found l link
    exact (contents l concerns valid).1
  · obtain ⟨valid, same⟩ := ok.watched e mem
    obtain ⟨valid', same'⟩ := contents e.1 (Or.inr (Or.inr ⟨e, mem, rfl⟩)) valid
    exact ⟨valid', same'.trans same⟩

/-- Changes beside the objects. -/
theorem beside (ok : Presents S W o chain F h) (same : SameTable h h') (stack : h'.stack = S') :
    Presents S' W o chain F h' :=
  ok.transfer (ok.intact.congr same) stack fun p obj _ found =>
    ⟨obj, by rw [same.object, found], ⟨rfl, rfl, rfl⟩, fun _ => rfl⟩

theorem collect (ok : Presents S W o chain F h) (rooted : Rooted S W o)
    (held : ClassId → Bool) : Presents S W o chain F (h.collect held) :=
  ok.transfer (ok.intact.collect held) ok.stack fun _ obj concerns found =>
    ⟨obj, object_collect_of_alive ok.intact found (ok.alive rooted concerns), ⟨rfl, rfl, rfl⟩,
      fun _ => rfl⟩

theorem makeRoom (ok : Presents S W o chain F h) (rooted : Rooted S W o)
    (held : ClassId → Bool) (bytes : Nat) :
    Presents S W o chain F (Heap.makeRoom held bytes h).2 := by
  rcases makeRoom_state held bytes h with eq | eq | eq <;> rw [eq]
  · exact ok
  · exact ok.beside ⟨rfl, rfl, rfl, rfl, rfl⟩ ok.stack
  · exact ok.collect rooted held

theorem place (ok : Presents S W o chain F h) (obj : HostObject) :
    Presents S W o chain F (h.place obj).2 ∧ (h.place obj).1 ∉ chain := by
  have empty := ok.intact.freeIsEmpty
  have new : ∀ p, h.isValid p = true → p ≠ (h.place obj).1 := by
    rintro p valid rfl
    rw [not_isValid_place_fst empty] at valid
    cases valid
  refine ⟨ok.transfer (stable_intact.place obj h ok.intact) ((place_stack h obj).trans ok.stack)
    fun p pobj _ found => ⟨pobj, ?_, ⟨rfl, rfl, rfl⟩, fun _ => rfl⟩,
    fun mem => new _ (ok.linked.isValid _ mem) rfl⟩
  rw [object_place empty, if_neg (new p (isValid_of_object found))]
  exact found

/-- A store at an object that is not on the chain. -/
theorem store_off (ok : Presents S W o chain F h) (found : h.object f = .ok obj)
    (off : f ∉ chain) (same : obj.SameKind new) :
    Presents S W o chain F (h.store f.index new) := by
  refine ok.transfer (stable_intact.store f obj new h found ok.intact) ok.stack
    fun p pobj _ foundp => ?_
  rw [object_store found]
  by_cases eq : p = f
  · subst eq
    cases found.symm.trans foundp
    exact ⟨new, if_pos rfl, same, fun mem => absurd mem off⟩
  · exact ⟨pobj, by rw [if_neg eq, foundp], ⟨rfl, rfl, rfl⟩, fun _ => rfl⟩

/-- **A store at an object of the chain changes the face of that object.** -/
theorem store (ok : Presents S W o chain F h) (found : h.object q = .ok obj)
    (same : obj.SameKind new) (closed : ∀ l ∈ new.links, h.isValid l = true) :
    Presents S W o chain (Function.update F q ⟨obj.ofClass, new.properties.map h.shown⟩)
      (h.store q.index new) := by
  have contents : (h.store q.index new).content = h.content := by
    funext v
    cases v with
    | object f =>
        simp only [content, object_store found]
        by_cases eq : f = q
        · subst eq
          simp only [found]
          exact same.content f
        · rw [if_neg eq]
    | _ => rfl
  have shown : (h.store q.index new).shown = h.shown := by
    funext p
    rw [Heap.shown, Heap.shown, contents]
  refine ⟨stable_intact.store q obj new h found ok.intact, ok.stack,
    ok.linked.congr fun p _ => ?_, fun p mem => ?_, fun p mem pobj foundp l link => ?_,
    fun e mem => ?_⟩
  · rw [prototype_store found]
    split
    · next eq =>
        rw [eq, same.prototype, prototype, found]
        rfl
    · rfl
  · by_cases eq : p = q
    · subst eq
      rw [Function.update_self, face_of_object ((object_store found p).trans (if_pos rfl)),
        same.ofClass, shown]
    · rw [Function.update_of_ne eq, ← ok.faces p mem]
      unfold face
      rw [object_store found, if_neg eq, shown]
  · rw [isValid_store found]
    rw [object_store found] at foundp
    split at foundp
    · cases foundp
      exact closed l link
    · exact ok.closed p mem pobj foundp l link
  · rw [isValid_store found, contents]
    exact ok.watched e mem

/-- Another object may be watched. -/
theorem watch (ok : Presents S W o chain F h) (found : h.object f = .ok obj) :
    Presents S ((f, obj.content f) :: W) o chain F h := by
  refine ⟨ok.intact, ok.stack, ok.linked, ok.faces, ok.closed, fun e mem => ?_⟩
  rcases List.mem_cons.mp mem with rfl | mem
  · exact ⟨isValid_of_object found, content_of_object found⟩
  · exact ok.watched e mem

/-- What is watched need not be. -/
theorem unwatch (ok : Presents S W o chain F h) {W' : List (Handle × Content)} (less : W' ⊆ W) :
    Presents S W' o chain F h :=
  ⟨ok.intact, ok.stack, ok.linked, ok.faces, ok.closed, fun e mem => ok.watched e (less mem)⟩

theorem object_of_watched (ok : Presents S W o chain F h) (mem : (f, c) ∈ W) :
    ∃ obj, h.object f = .ok obj ∧ obj.content f = c := by
  obtain ⟨valid, same⟩ := ok.watched (f, c) mem
  obtain ⟨obj, found⟩ := isValid_iff.mp valid
  exact ⟨obj, found, (content_of_object found).symm.trans same⟩

theorem object_of_mem (ok : Presents S W o chain F h) (mem : q ∈ chain) :
    ∃ obj, h.object q = .ok obj ∧ F q = ⟨obj.ofClass, obj.properties.map h.shown⟩ := by
  obtain ⟨obj, found⟩ := isValid_iff.mp (ok.linked.isValid q mem)
  exact ⟨obj, found, (ok.faces q mem).symm.trans (face_of_object found)⟩

end Presents

/-! ### Contracts of the heap -/

section Operations

variable {α : Type} {next : Unit → HeapM α} {Q : α → Heap → Prop} {bytes : Nat}
  {name : Text} {call : HostFunction} {own : Property}

/-- What needs room answers if there is room for it. -/
theorem answers_room (rooted : Rooted S W o) (held : ClassId → Bool)
    (fits : ∀ h, Presents S W o chain F h →
      ∃ a h', next () h = (.ok a, h') ∧ Q a h' ∧ h.Spends bytes h') :
    Answers (fun h => h) bytes (Presents S W o chain F) (makeRoom held bytes >>= next) Q := by
  intro h ok
  have kept := ok.makeRoom rooted held bytes
  have state := makeRoom_state held bytes h
  have run : makeRoom held bytes h = verdict bytes (makeRoom held bytes h).2 := by
    rw [makeRoom_eq_verdict, verdict_snd]
  generalize (makeRoom held bytes h).2 = room at kept state run
  -- No collection makes the count grow.
  have less : h.Spends 0 room := by
    rcases state with rfl | rfl | rfl
    · exact ⟨rfl, Nat.le_refl _⟩
    · exact ⟨rfl, Nat.le_refl _⟩
    · refine ⟨rfl, ?_⟩
      rw [used_collect ok.intact]
      exact footprint_le_used ok.intact held
  obtain ⟨limits, used⟩ := less
  rw [bind_apply, run, verdict]
  by_cases full : room.limits.maxBytes < room.used + bytes
  · rw [if_pos full]
    rw [limits] at full
    exact Or.inl ⟨rfl, by dsimp only; omega⟩
  · rw [if_neg full]
    obtain ⟨a, h', done, post, limits', used'⟩ := fits room kept
    exact Or.inr ⟨a, h', done, post, limits'.trans limits, by dsimp only; omega⟩

theorem spends_place (h : Heap) (obj : HostObject) : h.Spends obj.size (h.place obj).2 := by
  unfold place
  split <;> exact ⟨rfl, Nat.le_refl _⟩

/-- A store costs what the object grows by. -/
theorem spends_store (ok : Intact h) (found : h.object q = .ok obj)
    (grows : new.size ≤ obj.size + bytes) : h.Spends bytes (h.store q.index new) := by
  have used := used_store_add ok.toConsistent found new
  exact ⟨rfl, by omega⟩

/-- Objects are placed beside the chain. -/
theorem answers_alloc (rooted : Rooted S W o) (held : ClassId → Bool) (obj : HostObject) :
    Answers (fun h => h) obj.size (Presents S W o chain F) (alloc held obj)
      (fun f h => Presents S ((f, obj.content f) :: W) o chain F h ∧ f ∉ chain) := by
  refine answers_room rooted held fun h ok => ?_
  obtain ⟨placed, off⟩ := ok.place obj
  have found : (h.place obj).2.object (h.place obj).1 = .ok obj := by
    rw [object_place ok.intact.freeIsEmpty, if_pos rfl]
  exact ⟨_, _, rfl, ⟨placed.watch found, off⟩, spends_place h obj⟩

/-- A change of an object that is not on the chain costs what the object grows by. -/
theorem Presents.change_off (ok : Presents S W o chain F h) (mem : (f, c) ∈ W) (off : f ∉ chain)
    {g : HostObject → HostObject} (same : ∀ obj : HostObject, obj.SameKind (g obj))
    (grows : ∀ obj : HostObject, (g obj).size ≤ obj.size + bytes) :
    ∃ a h', change f g h = (.ok a, h') ∧ Presents S W o chain F h' ∧ h.Spends bytes h' := by
  obtain ⟨obj, found, -⟩ := ok.object_of_watched mem
  exact ⟨(), h.store f.index (g obj), by simp only [change, found],
    ok.store_off found off (same obj), spends_store ok.intact found (grows obj)⟩

theorem size_withAdded (own : Property) (obj : HostObject) :
    (withAdded own obj).size = obj.size + HostObject.propertyBytes := by
  simp [HostObject.size, withAdded, Nat.add_mul, Nat.add_assoc]

theorem size_withUpdated (own : Property) (obj : HostObject) :
    (withUpdated own obj).size = obj.size := by
  simp [HostObject.size, withUpdated, length_update]

/-- A property with a primitive value is defined at an object that is not on the chain. -/
theorem answers_defineOwn_off (rooted : Rooted S W o) (mem : (f, c) ∈ W) (off : f ∉ chain)
    (held : ClassId → Bool) (own : Property) (primitive : own.value.object? = none) :
    Answers (fun h => h) HostObject.propertyBytes (Presents S W o chain F) (defineOwn held f own)
      (fun _ => Presents S W o chain F) := by
  intro h ok
  have storable : h.checkStorable own.value = .ok () :=
    checkStorable_eq_ok_iff.mpr fun l eq => by rw [eq] at primitive; cases primitive
  obtain ⟨obj, found, -⟩ := ok.object_of_watched mem
  unfold defineOwn
  rw [reading_bind_of_ok storable, bind_apply]
  simp only [reading, ownProperty, found, Except.map]
  cases Property.find? obj.properties own.name with
  | none =>
      refine answers_room rooted held (fun h ok => ?_) h ok
      exact ok.change_off mem off (fun _ => ⟨rfl, rfl, rfl⟩) fun obj =>
        Nat.le_of_eq (size_withAdded own obj)
  | some _ =>
      exact Or.inr (ok.change_off mem off (fun _ => ⟨rfl, rfl, rfl⟩) fun obj => by
        rw [size_withUpdated]
        exact Nat.le_add_right _ _)

/-- What is rooted for an operation is not rooted after it. -/
theorem answers_rooting {act : HeapM α}
    (answers : Answers (fun h => h) bytes (Presents (S.push v) W o chain F) act
      (fun _ => Presents (S.push v) W o chain F)) :
    Answers (fun h => h) bytes (Presents S W o chain F) (rooting v act)
      (fun _ => Presents S W o chain F) := by
  intro h ok
  have stack : (h.pushRoot v).stack = S.push v := by rw [← ok.stack]; rfl
  rcases answers (h.pushRoot v) (ok.beside ⟨rfl, rfl, rfl, rfl, rfl⟩ stack) with
    ⟨failed, full⟩ | ⟨a, h', run, post, spends⟩
  · exact Or.inl ⟨failed, full⟩
  · refine Or.inr ⟨a, h'.popRoot, by simp only [rooting, run], ?_, spends.limits, spends.used⟩
    refine post.beside ⟨rfl, rfl, rfl, rfl, rfl⟩ ?_
    rw [popRoot, post.stack, Array.pop_push]

/-- **A function object is made beside the chain.** -/
theorem answers_allocFunction (rooted : Rooted S W o) (held : ClassId → Bool) (name : Text)
    (call : HostFunction) :
    Answers (fun h => h) (HostObject.baseBytes + HostObject.propertyBytes)
      (Presents S W o chain F) (allocFunction held name call)
      (fun f h => Presents S ((f, .function name call) :: W) o chain F h ∧ f ∉ chain) := by
  have named : ∀ f, Answers (fun h => h) HostObject.propertyBytes
      (fun h => Presents S ((f, .function name call) :: W) o chain F h ∧ f ∉ chain)
      (do
        rooting (.object f) (defineOwn held f ⟨nameKey, .text name, .functionName⟩)
        return f)
      (fun f h => Presents S ((f, .function name call) :: W) o chain F h ∧ f ∉ chain) := by
    rintro f h ⟨ok, off⟩
    have defined := answers_rooting (F := F) (answers_defineOwn_off
      (rooted.watch f (.function name call)) List.mem_cons_self off held
      ⟨nameKey, .text name, .functionName⟩ rfl)
    exact (defined.bind fun _ => Answers.pure fun _ ok => ⟨ok, off⟩) h ok
  intro h ok
  unfold allocFunction
  rw [get_bind_apply]
  exact ((answers_alloc rooted held (h.functionObject name call)).bind named) h ok

/-! ### The properties of the chain -/

theorem own?_map_shown (h : Heap) (ofClass : Option Class) (ps : List Property) (name : Text) :
    (⟨ofClass, ps.map h.shown⟩ : Face).own? name = (Property.find? ps name).map h.shown :=
  List.find?_map ..

theorem map_shown_update (h : Heap) (ps : List Property) (p : Property) :
    (Property.update ps p).map h.shown =
      (ps.map h.shown).replaceF fun q => if q.name = p.name then some (h.shown p) else none := by
  induction ps with
  | nil => rfl
  | cons q ps ih =>
      unfold Property.update
      by_cases same : q.name = p.name
      · simp [same, shown]
      · simp [same, shown, ih]

theorem map_shown_remove (h : Heap) (ps : List Property) (name : Text) :
    (Property.remove ps name).map h.shown = (ps.map h.shown).eraseP fun q => q.name == name := by
  induction ps with
  | nil => rfl
  | cons q ps ih =>
      unfold Property.remove
      by_cases same : q.name = name
      · simp [same, shown]
      · simp [same, shown, ih]

/-- What a value is for a store: its content, or the fault that storing it would be. -/
def storing (h : Heap) (v : Value) : Except Fault Content :=
  (h.checkStorable v).map fun _ => h.content v

/-- Values whose content is known as long as the chain is presented: those that are no objects,
objects of other heaps and objects that are watched. -/
inductive AtHand (W : List (Handle × Content)) (o : Handle) :
    Value → Except Fault Content → Prop
  | primitive {v : Value} (primitive : v.object? = none) : AtHand W o v (.ok (.value v))
  | foreign {f : Handle} (foreign : f.heap ≠ o.heap) :
      AtHand W o (.object f) (.error .foreignHandle)
  | watched {f : Handle} {c : Content} (mem : (f, c) ∈ W) : AtHand W o (.object f) (.ok c)

theorem Presents.id (ok : Presents S W o chain F h) : h.id = o.heap :=
  (isValid_iff_slot.mp ok.linked.isValid_start).1.symm

theorem Presents.storing (ok : Presents S W o chain F h) {stored : Except Fault Content}
    (atHand : AtHand W o v stored) : h.storing v = stored := by
  cases atHand with
  | primitive primitive =>
      cases v with
      | object f => cases primitive
      | _ => rfl
  | foreign foreign =>
      rw [← ok.id] at foreign
      simp only [Heap.storing, checkStorable, check, object, if_pos foreign]
      rfl
  | watched mem =>
      obtain ⟨valid, same⟩ := ok.watched _ mem
      simp only [Heap.storing, checkStorable, check_eq_ok_iff.mpr valid]
      exact congrArg Except.ok same

theorem storing_eq_ok_iff : h.storing v = .ok c ↔ h.checkStorable v = .ok () ∧ h.content v = c := by
  unfold storing
  cases h.checkStorable v with
  | error e => simp [Except.map]
  | ok u => simp [Except.map]

/-- A change of an object of the chain, with the face that it has after it. -/
theorem Presents.change (ok : Presents S W o chain F h) (bytes : Nat) (mem : q ∈ chain)
    (g : HostObject → HostObject) (face : Face) (same : ∀ obj : HostObject, obj.SameKind (g obj))
    (grows : ∀ obj : HostObject, (g obj).size ≤ obj.size + bytes)
    (closed : ∀ obj : HostObject, ∀ l ∈ (g obj).links, l ∈ obj.links ∨ h.isValid l = true)
    (looks : ∀ obj : HostObject, F q = ⟨obj.ofClass, obj.properties.map h.shown⟩ →
      face = ⟨obj.ofClass, (g obj).properties.map h.shown⟩) :
    ∃ h', Heap.change q g h = (.ok (), h') ∧ Presents S W o chain (Function.update F q face) h' ∧
      h.Spends bytes h' := by
  obtain ⟨obj, found, eq⟩ := ok.object_of_mem mem
  rw [looks obj eq]
  refine ⟨h.store q.index (g obj), by simp only [Heap.change, found], ?_,
    spends_store ok.intact found (grows obj)⟩
  exact ok.store found (same obj) fun l link =>
    (closed obj l link).elim (ok.closed q mem obj found l) fun valid => valid

theorem ownProperty_of_mem (ok : Presents S W o chain F h) (mem : q ∈ chain) (name : Text) :
    ∃ own, h.ownProperty q name = .ok own ∧ (F q).own? name = own.map h.shown := by
  obtain ⟨obj, found, eq⟩ := ok.object_of_mem mem
  refine ⟨Property.find? obj.properties name, by rw [ownProperty, found]; rfl, ?_⟩
  rw [eq, own?_map_shown]

/-- **A new property is added.** -/
theorem answers_defineOwn_new (rooted : Rooted S W o) (mem : q ∈ chain)
    (held : ClassId → Bool) (own : Property) (atHand : AtHand W o own.value (.ok c))
    (missing : (F q).own? own.name = none) :
    Answers (fun h => h) HostObject.propertyBytes (Presents S W o chain F) (defineOwn held q own)
      (fun _ => Presents S W o chain
        (Function.update F q ((F q).add ⟨own.name, c, own.attributes⟩))) := by
  intro h ok
  have storable := (storing_eq_ok_iff.mp (ok.storing atHand)).1
  obtain ⟨old, read, face⟩ := ownProperty_of_mem ok mem own.name
  rw [missing, eq_comm, Option.map_eq_none_iff] at face
  rw [face] at read
  rw [defineOwn_of_missing storable read]
  refine answers_room rooted held (fun h ok => ?_) h ok
  obtain ⟨storable, content⟩ := storing_eq_ok_iff.mp (ok.storing atHand)
  obtain ⟨h', run, post, spends⟩ := ok.change HostObject.propertyBytes mem (withAdded own)
    ((F q).add ⟨own.name, c, own.attributes⟩) (fun _ => ⟨rfl, rfl, rfl⟩)
    (fun obj => Nat.le_of_eq (size_withAdded own obj))
    (fun obj l link => (mem_links_withAdded.mp link).imp_right (isValid_of_checkStorable storable))
    fun obj eq => by rw [eq, ← content]; simp [Face.add, withAdded, shown]
  exact ⟨(), h', run, post, spends⟩

/-- **A write changes the face as it is said to.** -/
theorem answers_putOwn (rooted : Rooted S W o) (mem : q ∈ chain) (held : ClassId → Bool)
    (own : Property) (atHand : AtHand W o own.value (.ok c)) :
    Answers (fun h => h) HostObject.propertyBytes (Presents S W o chain F) (putOwn held q own)
      (fun _ => Presents S W o chain
        (Function.update F q ((F q).write ⟨own.name, c, own.attributes⟩))) := by
  intro h ok
  obtain ⟨storable, content⟩ := storing_eq_ok_iff.mp (ok.storing atHand)
  obtain ⟨old, read, face⟩ := ownProperty_of_mem ok mem own.name
  unfold putOwn
  rw [reading_bind_of_ok storable, reading_bind_of_ok read]
  cases old with
  | none =>
      rw [Option.map_none] at face
      have written : (F q).write ⟨own.name, c, own.attributes⟩ =
          (F q).add ⟨own.name, c, own.attributes⟩ := by simp only [Face.write, face]
      rw [written]
      have defined : Answers (fun h => h) HostObject.propertyBytes (Presents S W o chain F)
          (do
            defineOwn held q own
            return true)
          (fun _ => Presents S W o chain
            (Function.update F q ((F q).add ⟨own.name, c, own.attributes⟩))) :=
        (answers_defineOwn_new rooted mem held own atHand face).bind fun _ =>
          Answers.pure (a := true) (Q := fun _ => Presents S W o chain _) fun _ post => post
      exact defined h ok
  | some old =>
      rw [Option.map_some] at face
      dsimp only
      by_cases readOnly : old.attributes.readOnly = true
      · have written : (F q).write ⟨own.name, c, own.attributes⟩ = F q := by
          simp only [Face.write, face, shown, readOnly, if_true]
        rw [if_pos readOnly, written, Function.update_eq_self]
        exact Or.inr ⟨false, h, rfl, ok, rfl, Nat.le_add_right _ _⟩
      · have written : (F q).write ⟨own.name, c, own.attributes⟩ =
            (F q).replace ⟨own.name, c, writtenAttributes old.attributes own.attributes⟩ := by
          simp only [Face.write, face, shown, readOnly, if_false, Bool.false_eq_true]
        rw [if_neg readOnly, written, bind_apply]
        obtain ⟨h', run, post, spends⟩ := ok.change HostObject.propertyBytes mem
          (withUpdated { own with attributes := writtenAttributes old.attributes own.attributes })
          ((F q).replace ⟨own.name, c, writtenAttributes old.attributes own.attributes⟩)
          (fun _ => ⟨rfl, rfl, rfl⟩)
          (fun obj => by rw [size_withUpdated]; exact Nat.le_add_right _ _)
          (fun obj l link => (mem_links_withUpdated link).imp_right
            (isValid_of_checkStorable storable))
          fun obj eq => by
            rw [eq, ← content]
            simp [Face.replace, withUpdated, shown, map_shown_update]
        rw [run]
        exact Or.inr ⟨true, h', rfl, post, spends⟩

/-- A property that may be removed is removed. -/
theorem answers_deleteOwn (mem : q ∈ chain) (name : Text)
    (removable : ((F q).own? name).any (fun p => p.attributes.permanent) = false) :
    Answers (fun h => h) 0 (Presents S W o chain F) (deleteOwn q name)
      (fun removed h => removed = true ∧
        Presents S W o chain (Function.update F q ((F q).remove name)) h) := by
  intro h ok
  obtain ⟨old, read, face⟩ := ownProperty_of_mem ok mem name
  unfold deleteOwn
  rw [reading_bind_of_ok read]
  cases old with
  | none =>
      rw [Option.map_none] at face
      have removed : (F q).remove name = F q := by
        have absent : (F q).properties.eraseP (fun p => p.name == name) = (F q).properties :=
          List.eraseP_of_forall_not (by simpa [Face.own?] using face)
        rw [Face.remove, absent]
      rw [removed, Function.update_eq_self]
      exact Or.inr ⟨true, h, rfl, ⟨rfl, ok⟩, rfl, Nat.le_refl _⟩
  | some old =>
      rw [face] at removable
      have lasts : ¬ old.attributes.permanent = true := by simpa [shown] using removable
      dsimp only
      rw [if_neg lasts, bind_apply]
      obtain ⟨h', run, post, spends⟩ := ok.change 0 mem (withRemoved name)
        ((F q).remove name) (fun _ => ⟨rfl, rfl, rfl⟩)
        (fun obj => Nat.add_le_add_left
          (Nat.mul_le_mul_right _ (length_remove_le obj.properties name)) _)
        (fun obj l link => Or.inl (mem_links_withRemoved link))
        fun obj eq => by rw [eq]; simp [Face.remove, withRemoved, map_shown_remove]
      rw [run]
      exact Or.inr ⟨true, h', rfl, ⟨rfl, post⟩, spends⟩

end Operations

end Heap

end HostObjects
