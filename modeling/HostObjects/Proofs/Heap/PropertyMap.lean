import HostObjects.Proofs.Heap.Retain
import Mathlib.Logic.Function.Basic

/-!
# Own properties as an ordered map

The properties of an object are a list that is searched from the front and changed in three ways:
a property is put in the place of one, added at the end, or taken out.  What that comes to is a
finite map from names to values and attributes that knows the order in which the names came
(`Dictionary`): `assign` keeps the place of a name that is there and puts a new one last, and
`erase` keeps the order of the others.

The list stands for the map (`Dictionary.ofProperties`) as long as no name is in it twice, and each
operation on own properties then is one on the map (`ofProperties_define`,
`ofProperties_remove`).  Of all commands only three change the map of an object, and each only that
of its own object, so the map of an object after a run is what the successful ones among them
make of it in turn (`dictionary_after`).
-/

namespace HostObjects

/-! ### Ordered maps -/

/-- A map from names to values and attributes, with the names in the order in which they came. -/
@[ext]
structure Dictionary where
  names : List Text
  entry : Text → Option (Value × Attributes)

namespace Dictionary

variable {d : Dictionary} {n : Text} {v : Value} {a : Attributes}

/-- Each name is listed once, and the listed names are those with an entry. -/
structure Proper (d : Dictionary) : Prop where
  nodup : d.names.Nodup
  mem_iff : ∀ n, n ∈ d.names ↔ (d.entry n).isSome

/-- Gives a name a value and attributes.  A new name comes last. -/
def assign (d : Dictionary) (n : Text) (v : Value) (a : Attributes) : Dictionary where
  names := if n ∈ d.names then d.names else d.names ++ [n]
  entry := Function.update d.entry n (some (v, a))

/-- Gives a name a value.  Without new attributes a name that is there keeps those it has. -/
def write (d : Dictionary) (n : Text) (v : Value) (a : Attributes) : Dictionary :=
  d.assign n v <|
    match d.entry n with
    | some (_, old) => if a = .none then old else a
    | none => a

/-- Takes a name out. -/
def erase (d : Dictionary) (n : Text) : Dictionary where
  names := d.names.filter fun m => decide (m ≠ n)
  entry := Function.update d.entry n none

/-- The names that are not hidden, in order. -/
def visible (d : Dictionary) : List Text :=
  d.names.filter fun n => (d.entry n).any fun e => !e.2.hidden

/-- **An assignment leaves the other names**, with their values, attributes and order. -/
theorem erase_assign (d : Dictionary) (n : Text) (v : Value) (a : Attributes) :
    (d.assign n v a).erase n = d.erase n := by
  unfold assign erase
  rw [Function.update_idem]
  split
  · rfl
  · simp

theorem erase_write (d : Dictionary) (n : Text) (v : Value) (a : Attributes) :
    (d.write n v a).erase n = d.erase n := d.erase_assign n v _

theorem erase_erase (d : Dictionary) (n : Text) : (d.erase n).erase n = d.erase n := by
  unfold erase
  rw [Function.update_idem, List.filter_filter]
  simp

/-! ### Lists that stand for maps -/

/-- The map that a list of properties stands for. -/
def ofProperties (ps : List Property) : Dictionary where
  names := ps.map Property.name
  entry n := (Property.find? ps n).map fun p => (p.value, p.attributes)

variable {ps qs : List Property} {new : Property}

theorem entry_ofProperties (ps : List Property) (n : Text) :
    (ofProperties ps).entry n =
      (Property.find? ps n).map fun p => (p.value, p.attributes) := rfl

theorem mem_names_ofProperties : n ∈ (ofProperties ps).names ↔ (Property.find? ps n).isSome := by
  simp [ofProperties, Property.find?, List.find?_isSome]

theorem proper_ofProperties (unrepeated : Property.Unrepeated ps) : (ofProperties ps).Proper where
  nodup := unrepeated
  mem_iff n := by rw [mem_names_ofProperties, entry_ofProperties, Option.isSome_map]

/-- Lists with the same properties but for one name stand for maps that differ in its entry. -/
theorem entry_of_others (same : Property.others qs n = Property.others ps n) :
    (ofProperties qs).entry =
      Function.update (ofProperties ps).entry n ((ofProperties qs).entry n) := by
  funext m
  by_cases is : m = n
  · rw [is, Function.update_self]
  · rw [Function.update_of_ne is, entry_ofProperties, entry_ofProperties,
      Property.find?_of_others same is]

/-- **Defining a property is an assignment.** -/
theorem ofProperties_define (ps : List Property) (new : Property) :
    ofProperties (Property.define ps new) =
      (ofProperties ps).assign new.name new.value new.attributes := by
  cases there : Property.find? ps new.name with
  | some old =>
      have listed : new.name ∈ (ofProperties ps).names :=
        mem_names_ofProperties.mpr (by rw [there, Option.isSome_some])
      rw [Property.define_of_there there]
      refine Dictionary.ext ?_ ?_
      · exact (Property.map_name_update ps new).trans (if_pos listed).symm
      · rw [entry_of_others (Property.others_update ps new),
          entry_ofProperties (Property.update ps new), Property.find?_update new there]
        rfl
  | none =>
      have unlisted : new.name ∉ (ofProperties ps).names := by
        rw [mem_names_ofProperties, there]
        exact Bool.false_ne_true
      rw [Property.define_of_missing there]
      refine Dictionary.ext ?_ ?_
      · exact List.map_append.trans (if_neg unlisted).symm
      · rw [entry_of_others (Property.others_append ps new),
          entry_ofProperties (ps ++ [new]), Property.find?_append there]
        rfl

/-- Where the name was only once, its removal leaves the names of the others. -/
theorem map_name_remove (unrepeated : Property.Unrepeated ps) (n : Text) :
    (Property.remove ps n).map Property.name =
      (ps.map Property.name).filter fun m => decide (m ≠ n) := by
  have none : ∀ p ∈ Property.remove ps n, p.name ≠ n := by
    intro p mem same
    have missing := List.find?_eq_none.mp (Property.find?_remove unrepeated n) p mem
    exact missing (beq_iff_eq.mpr same)
  have others := Property.others_remove ps n
  rw [Property.others, List.filter_eq_self.mpr fun p mem => decide_eq_true (none p mem)] at others
  rw [others, Property.others, List.filter_map]
  rfl

/-- **Removing the one property of a name is an erasure.** -/
theorem ofProperties_remove (unrepeated : Property.Unrepeated ps) (n : Text) :
    ofProperties (Property.remove ps n) = (ofProperties ps).erase n := by
  refine Dictionary.ext (map_name_remove unrepeated n) ?_
  rw [entry_of_others (Property.others_remove ps n), entry_ofProperties (Property.remove ps n),
    Property.find?_remove unrepeated]
  rfl

/-- The names that enumerations show are the visible ones of the map. -/
theorem visibleNames_eq (unrepeated : Property.Unrepeated ps) :
    Property.visibleNames ps = (ofProperties ps).visible := by
  have own : ∀ p ∈ ps, (!p.attributes.hidden) =
      ((ofProperties ps).entry p.name).any fun e => !e.2.hidden := by
    intro p mem
    rw [entry_ofProperties, Property.find?_of_mem unrepeated mem]
    rfl
  rw [Property.visibleNames, List.filter_congr own, visible, ofProperties, List.filter_map]
  rfl

end Dictionary

namespace Heap

variable {h h' : Heap} {held : ClassId → Bool} {o : Handle} {p : Property} {n : Text}
  {obj : HostObject} {d d' : Dictionary} {c : Command}

/-! ### The map of an object -/

/-- The own properties of an object as a map. -/
def dictionary (h : Heap) (o : Handle) : Except Fault Dictionary :=
  (h.object o).map fun obj => .ofProperties obj.properties

theorem dictionary_of_object (found : h.object o = .ok obj) :
    h.dictionary o = .ok (.ofProperties obj.properties) := by
  rw [dictionary, found]
  rfl

theorem object_of_dictionary (has : h.dictionary o = .ok d) :
    ∃ obj, h.object o = .ok obj ∧ d = .ofProperties obj.properties := by
  obtain ⟨obj, found, eq⟩ := map_object_eq_ok_iff.mp has
  exact ⟨obj, found, eq.symm⟩

/-- The own properties of an object are the map, and readings and enumerations show it. -/
structure Shows (o : Handle) (h : Heap) (d : Dictionary) : Prop where
  dictionary : h.dictionary o = .ok d
  proper : d.Proper
  values : ∀ n, h.getOwn o n = .ok ((d.entry n).map Prod.fst)
  attributes : ∀ n, h.ownAttributes o n = .ok ((d.entry n).map Prod.snd)
  listed : h.ownNames o = .ok d.visible

/-- **Reading a name is a look-up in the map**, and an enumeration lists its visible names. -/
theorem shows_of_dictionary (unrepeated : h.Unrepeated) (has : h.dictionary o = .ok d) :
    Shows o h d := by
  obtain ⟨obj, found, rfl⟩ := object_of_dictionary has
  have apart := unrepeated o obj found
  refine ⟨has, Dictionary.proper_ofProperties apart, fun n => ?_, fun n => ?_, ?_⟩
  · rw [getOwn, ownProperty_of_object found, Dictionary.entry_ofProperties, Option.map_map]
    rfl
  · rw [ownAttributes, ownProperty_of_object found, Dictionary.entry_ofProperties, Option.map_map]
    rfl
  · rw [ownNames, found]
    exact congrArg Except.ok (Dictionary.visibleNames_eq apart)

/-! ### Operations -/

/-- A definition that answers assigns the name. -/
theorem dictionary_defineOwn (has : h.dictionary o = .ok d)
    (run : defineOwn held o p h = (.ok (), h')) :
    h'.dictionary o = .ok (d.assign p.name p.value p.attributes) := by
  obtain ⟨old, before, rfl⟩ := object_of_dictionary has
  obtain ⟨roomy, obj, room, found, rfl⟩ := of_defineOwn_ok run
  obtain rfl := Except.ok.inj (before.symm.trans (room.object found))
  rw [dictionary_of_object (by rw [object_store found, if_pos rfl]),
    Dictionary.ofProperties_define]

/-- A write that lands writes the name. -/
theorem dictionary_putOwn (has : h.dictionary o = .ok d)
    (run : putOwn held o p h = (.ok true, h')) :
    h'.dictionary o = .ok (d.write p.name p.value p.attributes) := by
  obtain ⟨obj, before, rfl⟩ := object_of_dictionary has
  rcases of_putOwn_stores run with ⟨-, refused, -⟩ | ⟨-, -, old, roomy, obj', own, room, found, rfl⟩
  · cases refused
  · obtain rfl := Except.ok.inj (before.symm.trans (room.object found))
    have there : Property.find? obj.properties p.name = old :=
      Except.ok.inj ((ownProperty_of_object before p.name).symm.trans own)
    rw [dictionary_of_object (by rw [object_store found, if_pos rfl]),
      Dictionary.ofProperties_define, Dictionary.write, Dictionary.entry_ofProperties, there]
    cases old <;> rfl

/-- A deletion that is not refused erases the name, whether it was there or not. -/
theorem dictionary_deleteOwn (unrepeated : h.Unrepeated) (has : h.dictionary o = .ok d)
    (run : deleteOwn o n h = (.ok true, h')) : h'.dictionary o = .ok (d.erase n) := by
  obtain ⟨obj, found, rfl⟩ := object_of_dictionary has
  have apart := unrepeated o obj found
  rw [deleteOwn_of_object found] at run
  cases there : Property.find? obj.properties n with
  | none =>
      rw [there] at run
      cases run
      rw [has, ← Dictionary.ofProperties_remove apart, Property.remove_of_missing there]
  | some old =>
      rw [there] at run
      dsimp only at run
      split at run
      · cases run
      · cases run
        rw [dictionary_of_object (by rw [object_store found, if_pos rfl]),
          ← Dictionary.ofProperties_remove apart]
        rfl

/-- What is there after a failure was there before it. -/
theorem dictionary_of_swept (swept : Swept held h h') (has : h.dictionary o = .ok d)
    (has' : h'.dictionary o = .ok d') : d' = d := by
  obtain ⟨obj, found, rfl⟩ := object_of_dictionary has
  obtain ⟨obj', found', rfl⟩ := object_of_dictionary has'
  have room : MadeRoom held h h' := swept.imp_right Or.inr
  cases found.symm.trans (room.object found')
  rfl

/-! ### Commands -/

/-- The object and the name that a command on own properties is about. -/
def Command.property? : Command → Option (Handle × Text)
  | defineOwn q p | putOwn q p => some (q, p.name)
  | deleteOwn q n => some (q, n)
  | _ => none

/-- What a command makes of the map of an object: what it says if it is about the object and is
carried out, and nothing if it is not. -/
def Command.edit (o : Handle) (held : ClassId → Bool) (h : Heap) (d : Dictionary) :
    Command → Dictionary
  | defineOwn q p =>
    if q = o then
      match (Heap.defineOwn held q p h).1 with
      | .ok () => d.assign p.name p.value p.attributes
      | .error _ => d
    else d
  | putOwn q p =>
    if q = o then
      match (Heap.putOwn held q p h).1 with
      | .ok true => d.write p.name p.value p.attributes
      | _ => d
    else d
  | deleteOwn q n =>
    if q = o then
      match (Heap.deleteOwn q n h).1 with
      | .ok true => d.erase n
      | _ => d
    else d
  | _ => d

theorem Command.edit_of_elsewhere (elsewhere : ∀ n, c.property? ≠ some (o, n)) :
    c.edit o held h d = d := by
  cases c with
  | defineOwn q p | putOwn q p =>
      refine if_neg fun same => elsewhere p.name ?_
      rw [property?, same]
  | deleteOwn q n =>
      refine if_neg fun same => elsewhere n ?_
      rw [property?, same]
  | _ => rfl

theorem Command.respects_of_elsewhere {has : List Property → Prop}
    (elsewhere : ∀ n, c.property? ≠ some (o, n)) : c.Respects o has := by
  cases c with
  | defineOwn q p | putOwn q p =>
      intro same
      exact absurd (congrArg (fun q => some (q, p.name)) same) (elsewhere p.name)
  | deleteOwn q n =>
      intro same
      exact absurd (congrArg (fun q => some (q, n)) same) (elsewhere n)
  | _ => trivial

theorem Command.respects_true (c : Command) (o : Handle) : c.Respects o fun _ => True := by
  cases c with
  | defineOwn => exact fun _ _ _ => ⟨trivial, trivial⟩
  | putOwn => exact fun _ _ _ _ => ⟨trivial, trivial⟩
  | deleteOwn => exact fun _ _ _ => trivial
  | _ => trivial

/-- **A command leaves all names but its own** as they are, and in their order. -/
theorem Command.erase_edit (about : c.property? = some (o, n)) :
    (c.edit o held h d).erase n = d.erase n := by
  cases c with
  | defineOwn q p =>
      cases about
      rw [edit, if_pos rfl]
      split
      · exact d.erase_assign _ _ _
      · rfl
  | putOwn q p =>
      cases about
      rw [edit, if_pos rfl]
      split
      · exact d.erase_write _ _ _
      · rfl
  | deleteOwn q m =>
      cases about
      rw [edit, if_pos rfl]
      split
      · exact d.erase_erase _
      · rfl
  | _ => cases about

/-- What a command on own properties leaves, if the object is still there. -/
theorem edit_of_dictionary (unrepeated : h.Unrepeated) (has : h.dictionary o = .ok d)
    (about : c.property? = some (o, n)) (has' : (c.run held h).dictionary o = .ok d') :
    d' = c.edit o held h d := by
  cases c with
  | defineOwn q p =>
      cases about
      rw [Command.edit, if_pos rfl]
      rw [Command.run] at has'
      rcases run : defineOwn held o p h with ⟨e | ⟨⟩, h'⟩ <;> rw [run] at has'
      · exact dictionary_of_swept ((clean_defineOwn o p h rfl).2 e h' run) has has'
      · exact Except.ok.inj (has'.symm.trans (dictionary_defineOwn has run))
  | putOwn q p =>
      cases about
      rw [Command.edit, if_pos rfl]
      rw [Command.run] at has'
      rcases run : putOwn held o p h with ⟨e | ⟨_ | _⟩, h'⟩ <;> rw [run] at has'
      · exact dictionary_of_swept ((clean_putOwn o p h rfl).2 e h' run) has has'
      · rcases of_putOwn_stores run with ⟨-, -, rfl⟩ | ⟨-, landed, -⟩
        · exact Except.ok.inj (has'.symm.trans has)
        · cases landed
      · exact Except.ok.inj (has'.symm.trans (dictionary_putOwn has run))
  | deleteOwn q m =>
      cases about
      rw [Command.edit, if_pos rfl]
      rw [Command.run] at has'
      rcases run : deleteOwn o n h with ⟨e | ⟨_ | _⟩, h'⟩ <;> rw [run] at has'
      · have swept : Swept held h h' := (clean_deleteOwn o n h rfl).2 e h' run
        exact dictionary_of_swept swept has has'
      · rw [eq_of_deleteOwn_refused run] at has'
        exact Except.ok.inj (has'.symm.trans has)
      · exact Except.ok.inj (has'.symm.trans (dictionary_deleteOwn unrepeated has run))
  | _ => cases about

/-! ### Runs -/

/-- A turn makes of the map of an object what its command says, unless the object dies. -/
theorem dictionary_run (ok : Intact h) (unrepeated : h.Unrepeated) (has : h.dictionary o = .ok d)
    {t : Turn} (spared : Spared h o (t.run h)) :
    (t.run h).dictionary o = .ok (t.command.edit o t.held h d) := by
  obtain ⟨obj, found, eq⟩ := object_of_dictionary has
  by_cases settle : t.command = .settle
  · rw [Turn.run, settle]
    exact has
  by_cases about : ∃ n, t.command.property? = some (o, n)
  · obtain ⟨n, about⟩ := about
    -- Whatever becomes of its properties, the object is there.
    have retains : Retains h o (fun _ => True) [] (t.run h) :=
      Retains.run ok found trivial t.held (t.command.respects_true o) settle
    obtain ⟨obj', found', -⟩ := retains.there spared
    have has' := dictionary_of_object found'
    rw [has', edit_of_dictionary unrepeated has about has']
  · have elsewhere : ∀ n, t.command.property? ≠ some (o, n) := not_exists.mp about
    have retains : Retains h o (Eq obj.properties) [] (t.run h) :=
      Retains.run ok found rfl t.held (Command.respects_of_elsewhere elsewhere) settle
    obtain ⟨obj', found', same⟩ := retains.there spared
    rw [dictionary_of_object found', ← same, Command.edit_of_elsewhere elsewhere, eq]

/-- What the commands of a run make of the map of an object, each in its turn. -/
def edited (o : Handle) : Heap → List Turn → Dictionary → Dictionary
  | _, [], d => d
  | h, t :: ts, d => edited o (t.run h) ts (t.command.edit o t.held h d)

/-- **While an object stays, its map is what the commands make of it.** -/
theorem dictionary_after (ok : Intact h) (unrepeated : h.Unrepeated)
    (has : h.dictionary o = .ok d) {turns : List Turn} (stays : Stays o h turns) :
    (h.after turns).dictionary o = .ok (edited o h turns d) := by
  induction turns generalizing h d with
  | nil => exact has
  | cons t ts ih =>
      obtain ⟨spared, stays⟩ := stays
      exact ih (ok.run t.held t.command) (unrepeated.run ok t.held t.command)
        (dictionary_run ok unrepeated has spared) stays

/-- The own properties of an object are a map.  Definitions, writes and deletions that are carried
out are assignments and erasures, and whether they are or not they leave the other names. -/
structure FormMap (o : Handle) (h : Heap) (d : Dictionary) : Prop extends Shows o h d where
  defined : ∀ held p h', defineOwn held o p h = (.ok (), h') →
    Shows o h' (d.assign p.name p.value p.attributes)
  put : ∀ held p h', putOwn held o p h = (.ok true, h') →
    Shows o h' (d.write p.name p.value p.attributes)
  deleted : ∀ n h', deleteOwn o n h = (.ok true, h') → Shows o h' (d.erase n)
  others : ∀ held (c : Command) n d', c.property? = some (o, n) →
    (c.run held h).dictionary o = .ok d' → d'.erase n = d.erase n

theorem formMap_of_dictionary (unrepeated : h.Unrepeated) (has : h.dictionary o = .ok d) :
    FormMap o h d where
  toShows := shows_of_dictionary unrepeated has
  defined held p h' run := by
    have apart : (defineOwn held o p h).2.Unrepeated :=
      (preserves_defineOwn_unrepeated o p).state unrepeated
    rw [run] at apart
    exact shows_of_dictionary apart (dictionary_defineOwn has run)
  put held p h' run := by
    have apart : (putOwn held o p h).2.Unrepeated :=
      (preserves_putOwn_unrepeated o p).state unrepeated
    rw [run] at apart
    exact shows_of_dictionary apart (dictionary_putOwn has run)
  deleted n h' run := by
    have apart : (deleteOwn o n h).2.Unrepeated :=
      (preserves_deleteOwn_unrepeated o n).state unrepeated
    rw [run] at apart
    exact shows_of_dictionary apart (dictionary_deleteOwn unrepeated has run)
  others held c n d' about has' := by
    rw [edit_of_dictionary unrepeated has about has', Command.erase_edit about]

/-- **Own properties form an ordered map** in every run, as long as the object stays. -/
theorem own_properties_form_map (reachable : Reachable h) (has : h.dictionary o = .ok d)
    {turns : List Turn} (stays : Stays o h turns) :
    FormMap o (h.after turns) (edited o h turns d) :=
  formMap_of_dictionary (reachable.after turns).unrepeated
    (dictionary_after reachable.intact reachable.unrepeated has stays)

/-- Three properties are added, and the second is written, deleted and, after a collection, added
again. -/
def readding (o : Handle) : List Turn :=
  turnsOf [.defineOwn o ⟨Text.ofString "a", .null, .functionName⟩,
    .putOwn o ⟨Text.ofString "b", .null, .none⟩, .putOwn o ⟨Text.ofString "c", .null, .none⟩,
    .putOwn o ⟨Text.ofString "b", .object o, .none⟩, .deleteOwn o (Text.ofString "b"), .collect,
    .defineOwn o ⟨Text.ofString "b", .undefined, .none⟩]

theorem own_properties_form_map_readded :
    let h := new ⟨0⟩ .standard .synchronous
    let o := h.objectPrototype
    Stays o h (readding o) ∧ ∃ d, FormMap o (h.after (readding o)) d ∧
      d.names = [Text.ofString "a", Text.ofString "c", Text.ofString "b"] ∧
      d.visible = [Text.ofString "c", Text.ofString "b"] := by
  intro h o
  have stays : Stays o h (readding o) := by decide +kernel
  have map := own_properties_form_map (.new ⟨0⟩ .standard .synchronous)
    (dictionary_of_object rfl) stays
  exact ⟨stays, _, map, by decide +kernel, by decide +kernel⟩

end Heap

end HostObjects
