import HostObjects.Proofs.Heap.Delete
import HostObjects.Proofs.Heap.Frame

/-!
# Properties that stay

An own property stays what it is until a command on its object and its name changes it, or the
object dies.  Commands on other objects, and on other names, change other objects and other
properties; and whatever is made on the way, functions and prototypes with their properties, is
new, so no object that is there is taken for it.

A handle may be given out again when its object is dead, so everything here is said of an object
that has not died since a start (`Spared`): then it is there, and what was so of its properties
still is (`Retains`).  A collection that spares the object spares what its properties name.

So an own property lasts through every run in which the object does not die and no command
changes the property (`ownProperty_after`, `LeftAlone`).  A property that is read-only and
permanent is changed by nothing but its definition (`Command.changes_iff_of_sealed`), and an
object on the stack does not die in a run above it (`stays_of_rooted`).
-/

namespace HostObjects

namespace Property

variable {ps qs : List Property} {m n : Text}

theorem find?_others (ps : List Property) (other : m ≠ n) :
    find? (others ps n) m = find? ps m := by
  unfold find? others
  rw [List.find?_filter]
  refine congrArg (fun test => List.find? test ps) (funext fun p => ?_)
  by_cases same : p.name = m
  · simp [same, other]
  · simp [same]

/-- Lists with the same properties but for one name agree on the other names. -/
theorem find?_of_others (same : others ps n = others qs n) (other : m ≠ n) :
    find? ps m = find? qs m := by
  rw [← find?_others ps other, same, find?_others qs other]

end Property

namespace Heap

variable {start h h' : Heap} {held : ClassId → Bool} {o q : Handle} {p : Property}
  {obj new : HostObject} {has : List Property → Prop} {made : List Handle} {c : Command}

/-! ### Objects that have not died -/

/-- The object has not died since the start. -/
def Spared (start : Heap) (o : Handle) (h : Heap) : Prop :=
  ∀ r ∈ deaths start h, r.handle ≠ o

theorem deaths_of_append {dead : List Reaped} (waiting : start.reaped <+: h.reaped)
    (more : h'.reaped = h.reaped ++ dead) : deaths start h' = deaths start h ++ dead := by
  obtain ⟨before, eq⟩ := waiting
  rw [deaths, deaths, more, ← eq, List.append_assoc, List.drop_left, List.drop_left]

theorem spared_of_reaped (same : h'.reaped = h.reaped) : Spared h o h' := by
  rw [Spared, deaths_eq_nil same]
  exact fun _ mem => absurd mem List.not_mem_nil

/-! ### Keeping properties -/

/-- Since the start no object was taken for one that was there: unless it has died, the object
is none of those that were made, and it still has properties of the kind, among them such as
name an object that was there. -/
structure Retains (start : Heap) (o : Handle) (has : List Property → Prop) (made : List Handle)
    (h : Heap) : Prop where
  intact : Intact h
  waiting : start.reaped <+: h.reaped
  older : Spared start o h → o ∉ made
  there : Spared start o h → ∃ obj, h.object o = .ok obj ∧ has obj.properties
  value : Spared start o h → ∀ v, (∀ ps, has ps → ∃ p ∈ ps, p.value = .object v) →
    start.isValid v = true → h.isValid v = true

namespace Retains

theorem refl (ok : Intact h) (found : h.object o = .ok obj) (there : has obj.properties) :
    Retains h o has [] h where
  intact := ok
  waiting := List.prefix_refl _
  older _ := List.not_mem_nil
  there _ := ⟨obj, found, there⟩
  value _ _ _ valid := valid

/-- The heap has the table of objects and the dead of another one. -/
theorem beside (retains : Retains start o has made h) (same : SameTable h h')
    (reaped : h'.reaped = h.reaped) : Retains start o has made h' := by
  have spared : Spared start o h' = Spared start o h := by rw [Spared, deaths, reaped]; rfl
  constructor
  · exact retains.intact.congr same
  · exact reaped ▸ retains.waiting
  · exact spared ▸ retains.older
  · rw [spared, same.object]
    exact retains.there
  · rw [spared, same.isValid]
    exact retains.value

theorem forget {fewer : List Handle} (retains : Retains start o has made h)
    (part : ∀ f ∈ fewer, f ∈ made) : Retains start o has fewer h where
  intact := retains.intact
  waiting := retains.waiting
  older spared mem := retains.older spared (part o mem)
  there := retains.there
  value := retains.value

/-- A collection that spares the object spares its properties and what they name. -/
theorem collect (retains : Retains start o has made h) (held : ClassId → Bool) :
    Retains start o has made (h.collect held) := by
  have dead := deaths_of_append retains.waiting (reaped_collect held h)
  have before : Spared start o (h.collect held) → Spared start o h := by
    intro spared r mem
    exact spared r (dead ▸ List.mem_append_left _ mem)
  have alive : Spared start o (h.collect held) → Alive held h (.object o) := by
    intro spared
    obtain ⟨obj, found, -⟩ := retains.there (before spared)
    have stays := (isValid_collect_iff_not_dead held (isValid_of_object found)).mpr fun r mem =>
      spared r (dead ▸ List.mem_append_right _ mem)
    exact ((isValid_collect_iff retains.intact).mp stays).2
  constructor
  · exact retains.intact.collect held
  · rw [reaped_collect]
    exact retains.waiting.trans (List.prefix_append _ _)
  · exact fun spared => retains.older (before spared)
  · intro spared
    obtain ⟨obj, found, there⟩ := retains.there (before spared)
    exact ⟨obj, object_collect_of_alive retains.intact found (alive spared), there⟩
  · intro spared v names valid
    obtain ⟨obj, found, there⟩ := retains.there (before spared)
    obtain ⟨p, mem, value⟩ := names obj.properties there
    have valid := retains.value (before spared) v names valid
    have reached : Alive held h (.object v) := .property (alive spared) found mem value valid
    exact (isValid_collect_iff retains.intact).mpr ⟨valid, reached⟩

/-- What is placed is none of the objects that are there. -/
theorem place (retains : Retains start o has made h) (obj : HostObject) :
    Retains start o has ((h.place obj).1 :: made) (h.place obj).2 := by
  have empty := retains.intact.freeIsEmpty
  have spared : Spared start o (h.place obj).2 = Spared start o h := by
    rw [Spared, deaths, place_reaped]
    rfl
  have other : ∀ q, h.isValid q = true → q ≠ (h.place obj).1 := by
    rintro q valid rfl
    rw [not_isValid_place_fst empty] at valid
    cases valid
  constructor
  · exact stable_intact.place obj h retains.intact
  · rw [place_reaped]
    exact retains.waiting
  · rw [spared]
    intro spared mem
    obtain ⟨old, found, -⟩ := retains.there spared
    rcases List.mem_cons.mp mem with same | mem
    · exact other o (isValid_of_object found) same
    · exact retains.older spared mem
  · rw [spared]
    intro spared
    obtain ⟨old, found, there⟩ := retains.there spared
    refine ⟨old, ?_, there⟩
    rwa [object_place empty, if_neg (other o (isValid_of_object found))]
  · rw [spared]
    intro spared v names valid
    rw [isValid_place empty, retains.value spared v names valid, Bool.or_true]

/-- A store at another object leaves the properties alone, and so does one that keeps their
kind. -/
theorem store (retains : Retains start o has made h) (found : h.object q = .ok obj)
    (keep : q = o → q ∉ made → has obj.properties → has new.properties) :
    Retains start o has made (h.store q.index new) := by
  constructor
  · exact stable_intact.store q obj new h found retains.intact
  · exact retains.waiting
  · exact retains.older
  · intro spared
    obtain ⟨old, there, had⟩ := retains.there spared
    by_cases same : q = o
    · subst same
      cases found.symm.trans there
      exact ⟨new, by rw [object_store found, if_pos rfl], keep rfl (retains.older spared) had⟩
    · exact ⟨old, by rwa [object_store found, if_neg (Ne.symm same)], had⟩
  · intro spared v names valid
    rw [isValid_store found]
    exact retains.value spared v names valid

end Retains

/-! ### Operations -/

theorem preserves_makeRoom_retains (bytes : Nat) :
    Preserves (Retains start o has made) (makeRoom held bytes) := by
  refine Preserves.of_state fun h retains => ?_
  rcases makeRoom_state held bytes h with eq | eq | eq <;> rw [eq]
  · exact retains
  · exact retains.beside ⟨rfl, rfl, rfl, rfl, rfl⟩ rfl
  · exact retains.collect held

theorem preserves_rooting_retains {α : Type} {v : Value} {act : HeapM α}
    (keep : Preserves (Retains start o has made) act) :
    Preserves (Retains start o has made) (rooting v act) := by
  refine Preserves.of_state fun h retains => ?_
  have pushed : Retains start o has made (h.pushRoot v) :=
    retains.beside ⟨rfl, rfl, rfl, rfl, rfl⟩ rfl
  exact (keep.state pushed).beside ⟨rfl, rfl, rfl, rfl, rfl⟩ rfl

theorem preserves_change_retains {f : HostObject → HostObject}
    (keep : q = o → q ∉ made → ∀ obj : HostObject, has obj.properties → has (f obj).properties) :
    Preserves (Retains start o has made) (change q f) := by
  refine Preserves.of_state fun h retains => ?_
  unfold change
  cases found : h.object q with
  | error e => exact retains
  | ok obj => exact retains.store found fun same older => keep same older obj

/-- Properties of the kind are so with the property as well, in the place of one of its name or at
the end. -/
def TakesProperty (has : List Property → Prop) (r : Property) : Prop :=
  ∀ ps, has ps → has (Property.update ps r) ∧ has (ps ++ [r])

/-- Defining a property of another object, or one that makes no difference. -/
theorem preserves_defineOwn_retains {r : Property}
    (takes : q = o → q ∉ made → TakesProperty has r) :
    Preserves (Retains start o has made) (defineOwn held q r) := by
  refine (preserves_reading _).bind fun _ => (preserves_reading _).bind fun old => ?_
  cases old with
  | some old =>
      exact preserves_change_retains fun same older obj there =>
        (takes same older obj.properties there).1
  | none =>
      refine (preserves_makeRoom_retains _).bind fun _ => ?_
      exact preserves_change_retains fun same older obj there =>
        (takes same older obj.properties there).2

theorem preserves_putOwn_retains {r : Property}
    (takes : q = o → ∀ a, TakesProperty has { r with attributes := a }) :
    Preserves (Retains start o has made) (putOwn held q r) := by
  refine (preserves_reading _).bind fun _ => (preserves_reading _).bind fun old => ?_
  cases old with
  | none =>
      exact (preserves_defineOwn_retains fun same _ => takes same r.attributes).bind fun _ =>
        Preserves.pure _
  | some old =>
      refine Preserves.ite (fun _ => Preserves.pure _) fun _ => ?_
      exact (preserves_change_retains fun same _ obj there =>
        (takes same _ obj.properties there).1).bind fun _ => Preserves.pure _

theorem preserves_deleteOwn_retains {name : Text}
    (loses : q = o → ∀ ps, has ps → has (Property.remove ps name)) :
    Preserves (Retains start o has made) (deleteOwn q name) := by
  refine (preserves_reading _).bind fun old => ?_
  cases old with
  | none => exact Preserves.pure _
  | some old =>
      refine Preserves.ite (fun _ => Preserves.pure _) fun _ => ?_
      exact (preserves_change_retains fun same _ obj there =>
        loses same obj.properties there).bind fun _ => Preserves.pure _

/-- What is allocated is new. -/
theorem meets_alloc_retains (obj : HostObject) :
    Meets (Retains start o has made) (alloc held obj) (fun f => Retains start o has (f :: made))
      (Retains start o has made) := by
  refine Meets.bind (preserves_makeRoom_retains _) fun _ h retains =>
    ⟨fun f h' run => ?_, fun _ _ run => ?_⟩ <;> cases run
  exact retains.place obj

theorem preserves_alloc_retains (obj : HostObject) :
    Preserves (Retains start o has made) (alloc held obj) :=
  (meets_alloc_retains obj).imp (fun _ hs => hs)
    (fun _ _ retains => retains.forget fun _ => List.mem_cons_of_mem _) fun _ hs => hs

/-- Fewer objects are known to be new. -/
theorem preserves_fewer_retains {α : Type} {f : Handle} {act : HeapM α}
    (keep : Preserves (Retains start o has (f :: made)) act) :
    Meets (Retains start o has (f :: made)) act (fun _ => Retains start o has (f :: made))
      (Retains start o has made) :=
  Meets.imp (fun _ hs => hs) (fun _ _ hs => hs)
    (fun _ retains => retains.forget fun _ => List.mem_cons_of_mem _) keep

/-- A function is new when it gets its name. -/
theorem meets_allocFunction_retains (name : Text) (call : HostFunction) :
    Meets (Retains start o has made) (allocFunction held name call)
      (fun f => Retains start o has (f :: made)) (Retains start o has made) := by
  refine Meets.bind Preserves.get fun start' => (meets_alloc_retains _).bind fun f => ?_
  have named : Preserves (Retains start o has (f :: made))
      (rooting (.object f) (defineOwn held f ⟨nameKey, .text name, .functionName⟩)) :=
    preserves_rooting_retains
      (preserves_defineOwn_retains fun _ older => absurd List.mem_cons_self older)
  exact (preserves_fewer_retains named).bind fun _ => Meets.pure fun _ hs => hs

/-- A prototype is new while functions are added to it. -/
theorem preserves_populate_retains {proto : Handle} (new : proto ∈ made)
    (entries : List StaticFunction) :
    Preserves (Retains start o has made) (populate held proto entries) := by
  induction entries with
  | nil => exact Preserves.pure _
  | cons entry rest ih =>
      refine (meets_allocFunction_retains entry.name entry.call).bind fun f => ?_
      have added : Preserves (Retains start o has made)
          (rooting (.object f) (defineOwn held proto ⟨entry.name, .object f, entry.attributes⟩)) :=
        preserves_rooting_retains (preserves_defineOwn_retains fun _ older => absurd new older)
      exact Meets.imp (fun _ retains => retains.forget fun _ => List.mem_cons_of_mem _)
        (fun _ _ hs => hs) (fun _ hs => hs) (added.bind fun _ => ih)

theorem preserves_prototypeOf_retains (chain : List Descriptor) :
    Preserves (Retains start o has made) (prototypeOf held chain) := by
  induction chain with
  | nil => exact Preserves.get.bind fun _ => Preserves.pure _
  | cons d ancestors ih =>
      refine Preserves.get.bind fun h => Preserves.ite (fun _ => Preserves.pure _) fun _ => ?_
      cases h.classPrototype? d.id with
      | some proto => exact Preserves.pure _
      | none =>
          refine ih.bind fun parent => (meets_alloc_retains _).bind fun proto => ?_
          have filled : Preserves (Retains start o has (proto :: made))
              (rooting (.object proto) (populate held proto d.firstFunctions)) :=
            preserves_rooting_retains (preserves_populate_retains List.mem_cons_self _)
          refine (preserves_fewer_retains filled).bind fun _ => ?_
          have recorded : ∀ h, Retains start o has (proto :: made) h →
              Retains start o has made (h.recordPrototype d.id proto) := by
            intro h retains
            have fewer := retains.forget fun _ => List.mem_cons_of_mem proto
            exact fewer.beside ⟨rfl, rfl, rfl, rfl, rfl⟩ rfl
          exact (Meets.modify recorded).bind fun _ => Preserves.pure _

/-! ### Commands -/

/-- The command writes or removes the property of the object, unless it is refused. -/
def Command.Changes (o : Handle) (p : Property) : Command → Prop
  | defineOwn q r => q = o ∧ r.name = p.name
  | putOwn q r => q = o ∧ r.name = p.name ∧ p.attributes.readOnly = false
  | deleteOwn q name => q = o ∧ name = p.name ∧ p.attributes.permanent = false
  | _ => False

theorem Command.not_changes (other : c.onProperty = false) : ¬ c.Changes o p := by
  cases c with
  | defineOwn | putOwn | deleteOwn => cases other
  | _ => exact fun none => none

/-- **A read-only and permanent property is changed by its definition only.** -/
theorem Command.changes_iff_of_sealed (readOnly : p.attributes.readOnly = true)
    (permanent : p.attributes.permanent = true) :
    c.Changes o p ↔ ∃ r, c = .defineOwn o r ∧ r.name = p.name := by
  cases c with
  | defineOwn q r =>
      constructor
      · rintro ⟨rfl, same⟩
        exact ⟨r, rfl, same⟩
      · rintro ⟨r', eq, same⟩
        cases eq
        exact ⟨rfl, same⟩
  | putOwn | deleteOwn => simp [Changes, readOnly, permanent]
  | _ => simp [Changes]

/-- A write that changes nothing leaves the heap. -/
theorem putOwn_of_not_changes {r : Property} (there : h.ownProperty q r.name = .ok (some p))
    (readOnly : p.attributes.readOnly = true) : (putOwn held q r h).2 = h := by
  unfold putOwn
  cases storable : h.checkStorable r.value with
  | error e =>
      rw [bind_apply]
      simp only [reading, storable]
  | ok _ =>
      rw [reading_bind_of_ok storable, reading_bind_of_ok there]
      dsimp only
      rw [if_pos readOnly]
      rfl

theorem deleteOwn_of_permanent {name : Text} (there : h.ownProperty q name = .ok (some p))
    (permanent : p.attributes.permanent = true) : deleteOwn q name h = (.ok false, h) := by
  unfold deleteOwn
  rw [reading_bind_of_ok there]
  dsimp only
  rw [if_pos permanent]
  rfl

/-- The command makes no difference to the properties of the object, if they are of the kind. -/
def Command.Respects (o : Handle) (has : List Property → Prop) : Command → Prop
  | defineOwn q r => q = o → TakesProperty has r
  | putOwn q r => q = o → ∀ a, TakesProperty has { r with attributes := a }
  | deleteOwn q name => q = o → ∀ ps, has ps → has (Property.remove ps name)
  | _ => True

/-- **A command that makes no difference to the properties of an object keeps them**, and what
they name, unless the object dies. -/
theorem Retains.run (ok : Intact h) (found : h.object o = .ok obj) (there : has obj.properties)
    (held : ClassId → Bool) (respects : c.Respects o has) (notSettle : c ≠ .settle) :
    Retains h o has [] (c.run held h) := by
  have start : Retains h o has [] h := .refl ok found there
  by_cases hb : c.isBeside = true
  · obtain ⟨same, reaped, -⟩ := c.run_beside held h hb
    exact start.beside same reaped
  · cases c with
    | collect => exact start.collect held
    | allocPlain =>
        rw [Command.run, allocPlain_apply]
        exact (preserves_alloc_retains _).state start
    | allocFunction name call =>
        exact ((meets_allocFunction_retains name call).imp (fun _ hs => hs)
          (fun _ _ retains => retains.forget fun _ => List.mem_cons_of_mem _)
          fun _ hs => hs).state start
    | allocConstructor made construct => exact (preserves_alloc_retains _).state start
    | prototypeOf c => exact (preserves_prototypeOf_retains c.chain).state start
    | allocInstance c data proto => exact (preserves_alloc_retains _).state start
    | defineOwn q r =>
        exact (preserves_defineOwn_retains fun same _ => respects same).state start
    | putOwn q r => exact (preserves_putOwn_retains respects).state start
    | deleteOwn q name => exact (preserves_deleteOwn_retains respects).state start
    | setPrototype q link =>
        refine Preserves.state ?_ start
        exact (preserves_reading _).bind fun _ => (preserves_reading _).bind fun _ =>
          preserves_change_retains fun _ _ _ there => there
    | setPrivate q data =>
        have keep : Preserves (Retains h o has []) (setPrivate q data) :=
          preserves_change_retains fun _ _ _ there => there
        exact keep.state start
    | settle => exact absurd rfl notSettle
    | _ => exact absurd rfl hb

/-- A list has the property, and no other of its name before it. -/
def Has (p : Property) (ps : List Property) : Prop := Property.find? ps p.name = some p

theorem takesProperty_has {r : Property} (other : r.name ≠ p.name) : TakesProperty (Has p) r :=
  fun ps there =>
    ⟨(Property.find?_of_others (Property.others_update ps r) other.symm).trans there,
      (Property.find?_of_others (Property.others_append ps r) other.symm).trans there⟩

/-- A command that does not change a property leaves the heap, or makes no difference to it. -/
theorem Command.respects_of_not_changes (there : h.ownProperty o p.name = .ok (some p))
    (held : ClassId → Bool) (other : ¬ c.Changes o p) :
    c.run held h = h ∨ c.Respects o (Has p) := by
  cases c with
  | defineOwn q r => exact Or.inr fun same => takesProperty_has fun named => other ⟨same, named⟩
  | putOwn q r =>
      by_cases both : q = o ∧ r.name = p.name
      · obtain ⟨rfl, named⟩ := both
        have readOnly : p.attributes.readOnly = true := by
          rw [← Bool.not_eq_false]
          exact fun writable => other ⟨rfl, named, writable⟩
        exact Or.inl (putOwn_of_not_changes (named ▸ there) readOnly)
      · exact Or.inr fun same _ => takesProperty_has fun named => both ⟨same, named⟩
  | deleteOwn q name =>
      by_cases both : q = o ∧ name = p.name
      · obtain ⟨rfl, rfl⟩ := both
        have permanent : p.attributes.permanent = true := by
          rw [← Bool.not_eq_false]
          exact fun removable => other ⟨rfl, rfl, removable⟩
        exact Or.inl (congrArg Prod.snd (deleteOwn_of_permanent there permanent))
      · refine Or.inr fun same ps there => ?_
        have apart : p.name ≠ name := fun named => both ⟨same, named.symm⟩
        exact (Property.find?_of_others (Property.others_remove ps name) apart).trans there
  | _ => exact Or.inr trivial

/-! ### Runs -/

/-- The object dies in no turn. -/
def Stays (o : Handle) (h : Heap) : List Turn → Prop
  | [] => True
  | t :: ts => Spared h o (t.run h) ∧ Stays o (t.run h) ts

instance (start : Heap) (o : Handle) (h : Heap) : Decidable (Spared start o h) :=
  inferInstanceAs (Decidable (∀ r ∈ deaths start h, r.handle ≠ o))

instance decidableStays (o : Handle) :
    ∀ (h : Heap) (turns : List Turn), Decidable (Stays o h turns)
  | _, [] => isTrue trivial
  | h, t :: ts => @instDecidableAnd _ _ _ (decidableStays o (t.run h) ts)

/-- No turn changes the property while it is there. -/
def Respected (o : Handle) (p : Property) (h : Heap) : List Turn → Prop
  | [] => True
  | t :: ts =>
    (h.ownProperty o p.name = .ok (some p) → ¬ t.command.Changes o p) ∧
      Respected o p (t.run h) ts

/-- A turn that does not change a property keeps it, and what it names, if the object stays. -/
theorem ownProperty_run (ok : Intact h) (there : h.ownProperty o p.name = .ok (some p))
    {t : Turn} (other : ¬ t.command.Changes o p) (spared : Spared h o (t.run h)) :
    (t.run h).ownProperty o p.name = .ok (some p) ∧
      ∀ v, p.value = .object v → h.isValid v = true → (t.run h).isValid v = true := by
  by_cases settle : t.command = .settle
  · have same : t.run h = { h with reaped := [] } := by rw [Turn.run, settle]; rfl
    rw [same]
    exact ⟨there, fun _ _ valid => valid⟩
  · rcases Command.respects_of_not_changes there t.held other with same | respects
    · rw [Turn.run, same]
      exact ⟨there, fun _ _ valid => valid⟩
    obtain ⟨obj, found⟩ := isValid_iff.mp (isValid_of_ownProperty there)
    have had : Has p obj.properties :=
      Except.ok.inj ((ownProperty_of_object found p.name).symm.trans there)
    have retains := Retains.run ok found had t.held respects settle
    obtain ⟨obj', found', has⟩ := retains.there spared
    refine ⟨(ownProperty_of_object found' p.name).trans (congrArg Except.ok has), ?_⟩
    exact fun v names => retains.value spared v fun ps there =>
      ⟨p, List.mem_of_find?_eq_some there, names⟩

/-- **A property lasts while its object stays and no turn changes it**, and so does what it
names. -/
theorem ownProperty_after (ok : Intact h) (there : h.ownProperty o p.name = .ok (some p))
    {turns : List Turn} (respected : Respected o p h turns) (stays : Stays o h turns) :
    (h.after turns).ownProperty o p.name = .ok (some p) ∧
      ∀ v, p.value = .object v → h.isValid v = true → (h.after turns).isValid v = true := by
  induction turns generalizing h with
  | nil => exact ⟨there, fun _ _ valid => valid⟩
  | cons t ts ih =>
      obtain ⟨first, later⟩ := respected
      obtain ⟨spared, stays⟩ := stays
      obtain ⟨there', value⟩ := ownProperty_run ok there (first there) spared
      obtain ⟨last, values⟩ := ih (ok.run t.held t.command) there' later stays
      exact ⟨last, fun v names valid => values v names (value v names valid)⟩

/-! ### Runs that leave a property alone -/

/-- Commands lead from the start to the heap that keep to the part of the stack above that of the
start, and none of them changes the property while it is there. -/
def Respectful (o : Handle) (p : Property) (start h : Heap) : Prop :=
  ∃ turns : List Turn, (∀ t ∈ turns, t.command.StaysAbove start.stack.size) ∧
    Respected o p start turns ∧ start.after turns = h

/-- Turns above the stack lead to heaps within. -/
theorem within_after (within : Within start h) {turns : List Turn}
    (above : ∀ t ∈ turns, t.command.StaysAbove start.stack.size) :
    Within start (h.after turns) := by
  induction turns generalizing h with
  | nil => exact within
  | cons t ts ih =>
      exact ih (within.step t.held (above t List.mem_cons_self)) fun u mem =>
        above u (List.mem_cons_of_mem _ mem)

theorem after_append (h : Heap) (ts us : List Turn) :
    h.after (ts ++ us) = (h.after ts).after us :=
  List.foldl_append

theorem respected_append {ts us : List Turn} :
    Respected o p h (ts ++ us) ↔ Respected o p h ts ∧ Respected o p (h.after ts) us := by
  induction ts generalizing h with
  | nil => exact ⟨fun later => ⟨trivial, later⟩, And.right⟩
  | cons t ts ih =>
      rw [List.cons_append, Respected, Respected, ih, and_assoc]
      rfl

namespace Respectful

theorem refl : Respectful o p h h :=
  ⟨[], fun _ mem => absurd mem List.not_mem_nil, trivial, rfl⟩

theorem within (calm : Respectful o p start h) : Within start h := by
  obtain ⟨turns, above, -, rfl⟩ := calm
  exact within_after .refl above

theorem trans (first : Respectful o p start h) (second : Respectful o p h h') :
    Respectful o p start h' := by
  have high := first.within.le_size
  obtain ⟨ts, above, respected, rfl⟩ := first
  obtain ⟨us, above', respected', rfl⟩ := second
  refine ⟨ts ++ us, fun t mem => ?_, respected_append.mpr ⟨respected, respected'⟩,
    after_append start ts us⟩
  rcases List.mem_append.mp mem with mem | mem
  · exact above t mem
  · exact (above' t mem).mono high

theorem step (calm : Respectful o p start h) (held : ClassId → Bool)
    (stays : c.StaysAbove start.stack.size)
    (other : h.ownProperty o p.name = .ok (some p) → ¬ c.Changes o p) :
    Respectful o p start (c.run held h) := by
  obtain ⟨ts, above, respected, rfl⟩ := calm
  refine ⟨ts ++ [⟨held, c⟩], fun t mem => ?_, respected_append.mpr ⟨respected, other, trivial⟩,
    after_append start ts _⟩
  rcases List.mem_append.mp mem with mem | mem
  · exact above t mem
  · rw [List.mem_singleton.mp mem]
    exact stays

end Respectful

/-! ### Objects on the stack -/

/-- The heap guards the stack of the start, and the object has not died. -/
structure Shelters (start : Heap) (o : Handle) (top : Array Value) (h : Heap) : Prop
    extends Guards start top h where
  waiting : start.reaped <+: h.reaped
  spared : Spared start o h

theorem Shelters.beside {top top' : Array Value} (shelters : Shelters start o top h)
    (guards : Guards start top' h') (reaped : h'.reaped = h.reaped) :
    Shelters start o top' h' where
  toGuards := guards
  waiting := reaped ▸ shelters.waiting
  spared := by
    rw [Spared, deaths, reaped]
    exact shelters.spared

/-- Steps spare what lies on the stack. -/
theorem steady_shelters (mem : .object o ∈ start.stack) (valid : start.isValid o = true) :
    Steady (Shelters start o) where
  collect top held h shelters := by
    have guards := (steady_guards start).collect top held h shelters.toGuards
    refine ⟨guards, ?_, ?_⟩
    · rw [reaped_collect]
      exact shelters.waiting.trans (List.prefix_append _ _)
    · have stays := (isValid_collect_iff_not_dead held (shelters.isValid o mem valid)).mp
        (guards.isValid o mem valid)
      intro r dead
      rw [deaths_of_append shelters.waiting (reaped_collect held h)] at dead
      exact (List.mem_append.mp dead).elim (shelters.spared r) (stays r)
  place top obj h shelters :=
    shelters.beside ((steady_guards start).place top obj h shelters.toGuards) (place_reaped h obj)
  store top o obj new h found same shelters :=
    shelters.beside ((steady_guards start).store top o obj new h found same shelters.toGuards) rfl
  beside top h h' same reaped stack shelters :=
    shelters.beside ((steady_guards start).beside top h h' same reaped stack shelters.toGuards)
      reaped
  push top v h shelters :=
    shelters.beside ((steady_guards start).push top v h shelters.toGuards) rfl
  pop top v h shelters :=
    shelters.beside ((steady_guards start).pop top v h shelters.toGuards) rfl

/-- An object on the stack dies in no command. -/
theorem spared_run (ok : Intact h) (mem : .object o ∈ h.stack) (valid : h.isValid o = true)
    (held : ClassId → Bool) (c : Command) : Spared h o (c.run held h) := by
  by_cases settle : c = .settle
  · subst settle
    exact fun r dead => absurd dead (by simp [deaths, Command.run])
  cases moves : c.movesStack with
  | true =>
      cases c with
      | pushRoot | cutStack => exact spared_of_reaped rfl
      | _ => cases moves
  | false =>
      have start : Shelters h o #[] h :=
        ⟨⟨ok, Array.append_empty.symm, fun _ _ valid => valid⟩, List.prefix_refl _,
          spared_of_reaped rfl⟩
      exact ((steady_shelters mem valid).run held settle moves start).spared

/-- **An object on the stack stays** in every run above it. -/
theorem stays_of_rooted (ok : Intact start) (mem : .object o ∈ start.stack)
    (valid : start.isValid o = true) (within : Within start h) {turns : List Turn}
    (above : ∀ t ∈ turns, t.command.StaysAbove start.stack.size) : Stays o h turns := by
  induction turns generalizing h with
  | nil => trivial
  | cons t ts ih =>
      refine ⟨spared_run (within.intact ok) (within.mem_stack mem) (within.isValid ok mem valid)
        t.held t.command, ?_⟩
      exact ih (within.step t.held (above t List.mem_cons_self)) fun u later =>
        above u (List.mem_cons_of_mem _ later)

/-! ### Runs in which a property is left alone -/

/-- Turns lead from one heap to the other in which the object stays and nothing changes the
property. -/
def LeftAlone (o : Handle) (p : Property) (h h' : Heap) : Prop :=
  ∃ turns : List Turn, Respected o p h turns ∧ Stays o h turns ∧ h.after turns = h'

theorem respected_of_not_changes {turns : List Turn}
    (others : ∀ t ∈ turns, ¬ t.command.Changes o p) : Respected o p h turns := by
  induction turns generalizing h with
  | nil => trivial
  | cons t ts ih =>
      exact ⟨fun _ => others t List.mem_cons_self, ih fun u mem =>
        others u (List.mem_cons_of_mem _ mem)⟩

/-- What is rooted stays, so a run that leaves its property alone keeps it. -/
theorem Respectful.leftAlone (respectful : Respectful o p h h') (ok : Intact h)
    (mem : .object o ∈ h.stack) (valid : h.isValid o = true) : LeftAlone o p h h' := by
  obtain ⟨turns, above, respected, eq⟩ := respectful
  exact ⟨turns, respected, stays_of_rooted ok mem valid .refl above, eq⟩

theorem Intact.after (ok : Intact h) (turns : List Turn) : Intact (h.after turns) := by
  induction turns generalizing h with
  | nil => exact ok
  | cons t ts ih => exact ih (ok.run t.held t.command)

namespace LeftAlone

theorem refl : LeftAlone o p h h := ⟨[], trivial, trivial, rfl⟩

theorem intact (calm : LeftAlone o p h h') (ok : Intact h) : Intact h' := by
  obtain ⟨turns, -, -, rfl⟩ := calm
  exact ok.after turns

theorem ownProperty (calm : LeftAlone o p h h') (ok : Intact h)
    (there : h.ownProperty o p.name = .ok (some p)) : h'.ownProperty o p.name = .ok (some p) := by
  obtain ⟨turns, respected, stays, rfl⟩ := calm
  exact (ownProperty_after ok there respected stays).1

theorem isValid (calm : LeftAlone o p h h') (ok : Intact h)
    (there : h.ownProperty o p.name = .ok (some p)) {f : Handle} (value : p.value = .object f)
    (valid : h.isValid f = true) : h'.isValid f = true := by
  obtain ⟨turns, respected, stays, rfl⟩ := calm
  exact (ownProperty_after ok there respected stays).2 f value valid

end LeftAlone

/-! ### What is new -/

/-- An object is new in a heap: its handle was not valid, and what else is found was found
before. -/
structure IsNew (f : Handle) (h h' : Heap) : Prop where
  invalid : h.isValid f = false
  others : ∀ q obj, q ≠ f → h'.object q = .ok obj → h.object q = .ok obj

theorem MadeRoom.intact (room : MadeRoom held h h') (ok : Intact h) : Intact h' := by
  rcases room with rfl | rfl | rfl
  · exact ok
  · exact ok.congr ⟨rfl, rfl, rfl, rfl, rfl⟩
  · exact ok.collect held

/-- What is alive is left where it is while room is made. -/
theorem MadeRoom.object_of_alive (room : MadeRoom held h h') (ok : Intact h)
    (alive : Alive held h (.object o)) (found : h.object o = .ok obj) :
    h'.object o = .ok obj := by
  rcases room with rfl | rfl | rfl
  · exact found
  · exact found
  · exact object_collect_of_alive ok found alive

/-- A slot that a collection empties is not given out under the handle of its dead object. -/
theorem isNew_place (ok : Intact h) (room : MadeRoom held h h') (obj : HostObject) :
    IsNew (h'.place obj).1 h (h'.place obj).2 := by
  have empty := (room.intact ok).freeIsEmpty
  constructor
  · refine Bool.eq_false_iff.mpr fun valid => ?_
    have apart := not_isValid_place_fst empty obj
    obtain ⟨vacant, generation⟩ := place_fst empty obj
    generalize (h'.place obj).1 = f at *
    rcases room with rfl | rfl | rfl
    · exact Bool.false_ne_true (apart.symm.trans valid)
    · exact Bool.false_ne_true (apart.symm.trans valid)
    · obtain ⟨own, s, slot, same, occupied⟩ := isValid_iff_slot.mp valid
      have after := collect_getElem? held h f.index
      rw [slot, Option.map_some] at after
      split at after
      · rw [generationAt, after, ← same] at generation
        exact absurd generation.symm (by simp [Slot.vacate])
      · exact Bool.false_ne_true
          (apart.symm.trans (isValid_iff_slot.mpr ⟨own, s, after, same, occupied⟩))
  · intro q obj' other found
    rw [object_place empty, if_neg other] at found
    exact room.object found

theorem isNew_alloc (ok : Intact h) {f : Handle} (run : alloc held obj h = (.ok f, h')) :
    IsNew f h h' := by
  unfold alloc at run
  obtain ⟨⟨⟩, roomy, room, run⟩ := of_bind_ok run
  cases run
  have state := makeRoom_state held obj.size h
  rw [room] at state
  exact isNew_place ok state obj

theorem isNew_allocFunction (ok : Intact h) {f : Handle} {name : Text} {call : HostFunction}
    (run : allocFunction held name call h = (.ok f, h')) : IsNew f h h' := by
  unfold allocFunction at run
  obtain ⟨start', t, got, run⟩ := of_bind_ok run
  cases got
  obtain ⟨f', t, placed, run⟩ := of_bind_ok run
  have fresh := isNew_alloc ok placed
  obtain ⟨⟨⟩, u, named, run⟩ := of_bind_ok run
  cases run
  unfold rooting at named
  rcases defined : defineOwn held f ⟨nameKey, .text name, .functionName⟩ (t.pushRoot (.object f))
    with ⟨r, v⟩
  rw [defined] at named
  obtain ⟨rfl, rfl⟩ := Prod.mk.inj named
  -- Only the function itself is stored anew.
  obtain ⟨roomy, obj, room, found, rfl⟩ := of_defineOwn_ok defined
  refine ⟨fresh.invalid, fun q obj' other there => fresh.others q obj' other ?_⟩
  have stored : (roomy.store f.index _).object q = .ok obj' := there
  rw [object_store found, if_neg other] at stored
  exact room.object stored

end Heap

end HostObjects
