import HostObjects.Proofs.View.Face

/-!
# Faces that differ in a stored function

A static function of an instance is stored as a property when it is read for the first time.
Two faces are twins if one of them may have been read so and the other not (`Twin`): they
differ in the property of one name, of which the class of the object has a function.  On one
of them the property may be missing, and both may have it at different places.

Accesses do not tell twins apart (`Alike.on`), and they make twins of twins, with one
exception: a write that is to be listed, where the class lists no name.  It creates the
property with the attributes that it brings on the one, and leaves those of the function on
the other, at another place in the list.
-/

namespace HostObjects

variable {f f' : Face} {n m : Text} {entry : StaticFunction} {p x x' : Shown} {l : List Shown}

/-! ### The properties of a name, and the others -/

theorem filter_replaceF_of_pos {keeps : Shown → Bool}
    (all : ∀ q : Shown, q.name = p.name → keeps q = true) :
    (l.replaceF fun q => if q.name = p.name then some p else none).filter keeps =
      (l.filter keeps).replaceF fun q => if q.name = p.name then some p else none := by
  induction l with
  | nil => rfl
  | cons q l ih =>
      by_cases same : q.name = p.name
      · simp [same, all q same, all p rfl]
      · cases kept : keeps q <;> simp [same, kept, ih]

theorem filter_replaceF_of_neg {keeps : Shown → Bool}
    (none : ∀ q : Shown, q.name = p.name → keeps q = false) :
    (l.replaceF fun q => if q.name = p.name then some p else .none).filter keeps =
      l.filter keeps := by
  induction l with
  | nil => rfl
  | cons q l ih =>
      by_cases same : q.name = p.name
      · simp [same, none q same, none p rfl]
      · cases kept : keeps q <;> simp [same, kept, ih]

theorem filter_eraseP_of_pos {keeps : Shown → Bool}
    (all : ∀ q : Shown, q.name = m → keeps q = true) :
    (l.eraseP fun q => q.name == m).filter keeps =
      (l.filter keeps).eraseP fun q => q.name == m := by
  induction l with
  | nil => rfl
  | cons q l ih =>
      by_cases same : q.name = m
      · simp [same, all q same]
      · cases kept : keeps q <;> simp [same, kept, ih]

theorem filter_eraseP_of_neg {keeps : Shown → Bool}
    (none : ∀ q : Shown, q.name = m → keeps q = false) :
    (l.eraseP fun q => q.name == m).filter keeps = l.filter keeps := by
  induction l with
  | nil => rfl
  | cons q l ih =>
      by_cases same : q.name = m
      · simp [same, none q same]
      · cases kept : keeps q <;> simp [same, kept, ih]

namespace Face

/-- The properties of the name. -/
def part (f : Face) (n : Text) : List Shown := f.properties.filter fun p => p.name == n

/-- The properties of other names. -/
def others (f : Face) (n : Text) : List Shown := f.properties.filter fun p => p.name != n

theorem own?_eq_head? (f : Face) (n : Text) : f.own? n = (f.part n).head? :=
  List.head?_filter.symm

theorem own?_of_part (part : f.part n = l) : f.own? n = l.head? := by
  rw [own?_eq_head?, part]

theorem own?_of_ne (other : m ≠ n) : f.own? m = (f.others n).find? fun p => p.name == m := by
  rw [others, List.find?_filter, own?]
  congr 1
  funext q
  by_cases same : q.name = m
  · simp [same, other]
  · simp [same]

theorem properties_of_part (none : f.part n = []) : f.properties = f.others n := by
  rw [others, eq_comm, List.filter_eq_self]
  rw [part, List.filter_eq_nil_iff] at none
  exact fun q mem => by simpa using none q mem

theorem part_add (f : Face) (p : Shown) (n : Text) :
    (f.add p).part n = f.part n ++ if p.name = n then [p] else [] := by
  rw [part, add, List.filter_append, part]
  by_cases same : p.name = n <;> simp [same]

theorem others_add (f : Face) (p : Shown) (n : Text) :
    (f.add p).others n = f.others n ++ if p.name = n then [] else [p] := by
  rw [others, add, List.filter_append, others]
  by_cases same : p.name = n <;> simp [same]

theorem part_replace_of_ne (other : p.name ≠ n) : (f.replace p).part n = f.part n :=
  filter_replaceF_of_neg fun q same => by simp [same, other]

theorem part_replace : (f.replace p).part p.name =
    (f.part p.name).replaceF fun q => if q.name = p.name then some p else none :=
  filter_replaceF_of_pos fun q same => by simp [same]

theorem others_replace : (f.replace p).others p.name = f.others p.name :=
  filter_replaceF_of_neg fun q same => by simp [same]

theorem others_replace_of_ne (other : p.name ≠ n) : (f.replace p).others n =
    (f.others n).replaceF fun q => if q.name = p.name then some p else none :=
  filter_replaceF_of_pos fun q same => by simp [same, other]

theorem part_remove_of_ne (other : m ≠ n) : (f.remove m).part n = f.part n :=
  filter_eraseP_of_neg fun q same => by simp [same, other]

theorem part_remove (f : Face) (n : Text) :
    (f.remove n).part n = (f.part n).eraseP fun q => q.name == n :=
  filter_eraseP_of_pos fun q same => by simp [same]

theorem others_remove (f : Face) (n : Text) : (f.remove n).others n = f.others n :=
  filter_eraseP_of_neg fun q same => by simp [same]

theorem others_remove_of_ne (other : m ≠ n) :
    (f.remove m).others n = (f.others n).eraseP fun q => q.name == m :=
  filter_eraseP_of_pos fun q same => by simp [same, other]

end Face

/-! ### Twins -/

/-- Two properties of one name of which accesses to an object with the face cannot tell which is
there. -/
structure Face.Confuses (f : Face) (x x' : Shown) : Prop where
  name : x'.name = x.name
  content : x'.content = x.content
  readOnly : x'.attributes.readOnly = x.attributes.readOnly
  permanent : x'.attributes.permanent = x.attributes.permanent ∨ f.refusesDelete x.name = true
  hidden : x.name ∈ f.declared ∨ (x.attributes.hidden = true ∧ x'.attributes.hidden = true)

/-- The faces differ in the property of a name of which the class has a function. -/
structure Twin (n : Text) (entry : StaticFunction) (f f' : Face) : Prop where
  ofClass : f'.ofClass = f.ofClass
  function : f.function? n = some entry
  others : f'.others n = f.others n
  /-- The function is stored as a property, or there are two properties that are confused. -/
  parts : (f.part n = [] ∧ f'.part n = [entry.shown n]) ∨
    ∃ x x', f.part n = [x] ∧ f'.part n = [x'] ∧ x.name = n ∧ f.Confuses x x'

namespace Face

/-- The instance function that is found first is among those of the name. -/
theorem exists_mem_of_function? (found : f.function? n = some entry) :
    ∃ c, f.ofClass = some c ∧ ∃ d ∈ c.onInstance, d.function? n = some entry := by
  unfold function? at found
  cases ofClass : f.ofClass with
  | none =>
      rw [ofClass] at found
      cases found
  | some c =>
      rw [ofClass] at found
      exact ⟨c, rfl, List.exists_of_findSome?_eq_some found⟩

theorem refusesWrite_of_readOnly (found : f.function? n = some entry)
    (readOnly : entry.attributes.readOnly = true) : f.refusesWrite n = true := by
  obtain ⟨c, ofClass, d, mem, declared⟩ := exists_mem_of_function? found
  rw [refusesWrite, ofClass]
  exact List.any_eq_true.mpr ⟨d, mem, by rw [declared]; exact readOnly⟩

theorem refusesDelete_of_permanent (found : f.function? n = some entry)
    (permanent : entry.attributes.permanent = true) : f.refusesDelete n = true := by
  obtain ⟨c, ofClass, d, mem, declared⟩ := exists_mem_of_function? found
  rw [refusesDelete, ofClass]
  exact Bool.or_eq_true_iff.mpr
    (Or.inr (List.any_eq_true.mpr ⟨d, mem, by rw [declared]; exact permanent⟩))

/-- A function that is found and not hidden is listed. -/
theorem mem_declared_of_function? (found : f.function? n = some entry)
    (visible : entry.attributes.hidden = false) : n ∈ f.declared := by
  obtain ⟨c, ofClass, d, mem, declared⟩ := exists_mem_of_function? found
  rw [Face.declared, ofClass]
  refine List.mem_append_right _ (List.mem_flatMap.mpr ⟨d, mem, List.mem_append_right _ ?_⟩)
  have first : d.firstFunctions.find? (fun g => g.name == n) = some entry :=
    (d.firsts_firstFunctions.first n).trans declared
  refine List.mem_map.mpr ⟨entry, List.mem_filter.mpr ⟨List.mem_of_find?_eq_some first, ?_⟩, ?_⟩
  · simp [visible]
  · simpa using List.find?_some first

end Face

/-- What a write leaves of confused properties is confused. -/
theorem Face.Confuses.written (confuses : f.Confuses x x') (name : x.name = p.name)
    (listed : p.name ∈ f.declared ∨ p.attributes.hidden = true) :
    f.Confuses { p with attributes := Heap.writtenAttributes x.attributes p.attributes }
      { p with attributes := Heap.writtenAttributes x'.attributes p.attributes } := by
  unfold Heap.writtenAttributes
  by_cases plain : p.attributes = .none
  · rw [if_pos plain, if_pos plain]
    exact ⟨rfl, rfl, confuses.readOnly, name ▸ confuses.permanent, name ▸ confuses.hidden⟩
  · rw [if_neg plain, if_neg plain]
    exact ⟨rfl, rfl, rfl, Or.inl rfl, listed.imp_right fun hidden => ⟨hidden, hidden⟩⟩

namespace Twin

variable {g g' : Face} (twin : Twin n entry f f')
include twin

theorem function? (m : Text) : f'.function? m = f.function? m := by
  rw [Face.function?, Face.function?, twin.ofClass]

theorem refusesWrite (m : Text) : f'.refusesWrite m = f.refusesWrite m := by
  rw [Face.refusesWrite, Face.refusesWrite, twin.ofClass]

theorem refusesDelete (m : Text) : f'.refusesDelete m = f.refusesDelete m := by
  rw [Face.refusesDelete, Face.refusesDelete, twin.ofClass]

theorem declared : f'.declared = f.declared := by
  rw [Face.declared, Face.declared, twin.ofClass]

theorem own?_of_ne (other : m ≠ n) : f'.own? m = f.own? m := by
  rw [Face.own?_of_ne other, Face.own?_of_ne other, twin.others]

/-- Changes of other properties, the same on both, leave twins. -/
theorem of_others (ofClass : g.ofClass = f.ofClass) (ofClass' : g'.ofClass = f'.ofClass)
    (others : g'.others n = g.others n) (part : g.part n = f.part n)
    (part' : g'.part n = f'.part n) : Twin n entry g g' where
  ofClass := by rw [ofClass', ofClass, twin.ofClass]
  function := by rw [Face.function?, ofClass]; exact twin.function
  others := others
  parts := by
    rw [part, part']
    refine twin.parts.imp_right ?_
    rintro ⟨x, x', eq, eq', name, confuses⟩
    refine ⟨x, x', eq, eq', name, confuses.name, confuses.content, confuses.readOnly, ?_, ?_⟩
    · rw [Face.refusesDelete, ofClass]
      exact confuses.permanent
    · rw [Face.declared, ofClass]
      exact confuses.hidden

/-- Properties of the name that are confused, in the places of those that there were. -/
theorem of_parts (confuses : f.Confuses x x') (name : x.name = n)
    (ofClass : g.ofClass = f.ofClass) (ofClass' : g'.ofClass = f'.ofClass)
    (others : g.others n = f.others n) (others' : g'.others n = f'.others n)
    (part : g.part n = [x]) (part' : g'.part n = [x']) : Twin n entry g g' where
  ofClass := by rw [ofClass', ofClass, twin.ofClass]
  function := by rw [Face.function?, ofClass]; exact twin.function
  others := by rw [others', others, twin.others]
  parts := by
    refine Or.inr ⟨x, x', part, part', name, confuses.name, confuses.content, confuses.readOnly,
      ?_, ?_⟩
    · rw [Face.refusesDelete, ofClass]
      exact confuses.permanent
    · rw [Face.declared, ofClass]
      exact confuses.hidden

theorem has (m : Text) : f'.has m = f.has m := by
  rw [Face.has, Face.has, twin.function?]
  by_cases same : m = n
  · rw [same, twin.function]
    rfl
  · rw [twin.own?_of_ne same]

/-- The function as it is stored is confused with itself. -/
theorem confuses_shown : f.Confuses (entry.shown n) (entry.shown n) := by
  refine ⟨rfl, rfl, rfl, Or.inl rfl, ?_⟩
  cases hidden : entry.attributes.hidden with
  | false => exact Or.inl (Face.mem_declared_of_function? twin.function hidden)
  | true => exact Or.inr ⟨hidden, hidden⟩

/-! ### Accesses to twins -/

/-- **A read does not tell twins apart.** -/
theorem read (m : Text) : (f.read m = none ∧ f'.read m = none) ∨
    ∃ c g g', f.read m = some (c, g) ∧ f'.read m = some (c, g') ∧ (g' = g ∨ Twin n entry g g') := by
  by_cases same : m = n
  · subst same
    rcases twin.parts with ⟨missing, stored⟩ | ⟨x, x', part, part', -, confuses⟩
    · have own : f.own? m = none := Face.own?_of_part missing
      have own' : f'.own? m = some (entry.shown m) := Face.own?_of_part stored
      refine Or.inr ⟨.function m entry.call, f.add (entry.shown m), f', ?_, ?_, Or.inr ?_⟩
      · simp only [Face.read, own, twin.function, Option.map_some]
      · simp only [Face.read, own']
        rfl
      · refine twin.of_parts twin.confuses_shown rfl rfl rfl ?_ rfl ?_ stored
        · simp [Face.others_add, StaticFunction.shown]
        · simp [Face.part_add, missing, StaticFunction.shown]
    · have own : f.own? m = some x := Face.own?_of_part part
      have own' : f'.own? m = some x' := Face.own?_of_part part'
      refine Or.inr ⟨x.content, f, f', ?_, ?_, Or.inr twin⟩
      · simp only [Face.read, own]
      · simp only [Face.read, own', confuses.content]
  · unfold Face.read
    rw [twin.own?_of_ne same, twin.function?]
    cases f.own? m with
    | some p => exact Or.inr ⟨_, f, f', rfl, rfl, Or.inr twin⟩
    | none =>
        cases f.function? m with
        | none => exact Or.inl ⟨rfl, rfl⟩
        | some e =>
            refine Or.inr ⟨_, _, _, rfl, rfl, Or.inr (twin.of_others rfl rfl ?_ ?_ ?_)⟩
            · rw [Face.others_add, Face.others_add, twin.others]
            · simp [Face.part_add, StaticFunction.shown, same]
            · simp [Face.part_add, StaticFunction.shown, same]

/-- A property that is created by a write is confused with the stored function after it. -/
theorem confuses_written (writable : entry.attributes.readOnly = false) (name : p.name = n)
    (listed : n ∈ f.declared ∨ p.attributes.hidden = true) :
    f.Confuses p
      { p with attributes := Heap.writtenAttributes entry.attributes p.attributes } := by
  unfold Heap.writtenAttributes
  by_cases plain : p.attributes = .none
  · rw [if_pos plain]
    refine ⟨rfl, rfl, by rw [plain]; exact writable, ?_, ?_⟩
    · cases permanent : entry.attributes.permanent with
      | false => exact Or.inl (by rw [plain]; rfl)
      | true => exact Or.inr (name ▸ Face.refusesDelete_of_permanent twin.function permanent)
    · refine Or.inl (name ▸ listed.resolve_right fun hidden => ?_)
      rw [plain] at hidden
      cases hidden
  · rw [if_neg plain]
    exact ⟨rfl, rfl, rfl, Or.inl rfl, name ▸ listed.imp_right fun hidden => ⟨hidden, hidden⟩⟩

/-- A write of the name leaves confused properties, or makes them. -/
theorem write_own (allowed : f.refusesWrite p.name = false) (name : p.name = n)
    (listed : n ∈ f.declared ∨ p.attributes.hidden = true) :
    Twin n entry (f.write p) (f'.write p) := by
  subst name
  rcases twin.parts with ⟨missing, stored⟩ | ⟨x, x', part, part', name, confuses⟩
  · have writable : entry.attributes.readOnly = false := by
      by_contra readOnly
      rw [Face.refusesWrite_of_readOnly twin.function (by simpa using readOnly)] at allowed
      cases allowed
    have own : f.own? p.name = none := Face.own?_of_part missing
    have own' : f'.own? p.name = some (entry.shown p.name) := Face.own?_of_part stored
    have added : f.write p = f.add p := by simp only [Face.write, own]
    have replaced : f'.write p = f'.replace
        { p with attributes := Heap.writtenAttributes entry.attributes p.attributes } := by
      simp only [Face.write, own', StaticFunction.shown, writable]
      rfl
    rw [added, replaced]
    refine twin.of_parts (twin.confuses_written writable rfl listed) rfl rfl rfl ?_
      Face.others_replace ?_ ?_
    · simp [Face.others_add]
    · simp [Face.part_add, missing]
    · refine Face.part_replace.trans ?_
      simp [stored, StaticFunction.shown]
  · have own : f.own? p.name = some x := Face.own?_of_part part
    have own' : f'.own? p.name = some x' := Face.own?_of_part part'
    unfold Face.write
    rw [own, own']
    dsimp only
    rw [confuses.readOnly]
    split
    · exact twin
    · refine twin.of_parts (confuses.written name listed) rfl rfl rfl Face.others_replace
        Face.others_replace ?_ ?_
      · refine Face.part_replace.trans ?_
        simp [part, name]
      · refine Face.part_replace.trans ?_
        simp [part', confuses.name, name]

/-- A write of another name does the same on both. -/
theorem write_other (other : p.name ≠ n) : Twin n entry (f.write p) (f'.write p) := by
  unfold Face.write
  rw [twin.own?_of_ne other]
  cases f.own? p.name with
  | none =>
      refine twin.of_others rfl rfl ?_ ?_ ?_
      · rw [Face.others_add, Face.others_add, twin.others]
      · simp [Face.part_add, other]
      · simp [Face.part_add, other]
  | some old =>
      dsimp only
      split
      · exact twin
      · refine twin.of_others rfl rfl ?_ (Face.part_replace_of_ne other)
          (Face.part_replace_of_ne other)
        let new : Shown :=
          { p with attributes := Heap.writtenAttributes old.attributes p.attributes }
        have other : new.name ≠ n := other
        show (f'.replace new).others n = (f.replace new).others n
        rw [Face.others_replace_of_ne other, Face.others_replace_of_ne other, twin.others]

/-- **A write makes twins of twins**, unless it is to be listed and the class lists no name. -/
theorem write (p : Shown) (allowed : f.refusesWrite p.name = false)
    (listed : p.name = n → n ∈ f.declared ∨ p.attributes.hidden = true) :
    Twin n entry (f.write p) (f'.write p) := by
  by_cases same : p.name = n
  · exact twin.write_own allowed same (listed same)
  · exact twin.write_other same

/-- Without the property of the name, twins are the same. -/
theorem eq_of_part (none : (f.remove n).part n = []) (none' : (f'.remove n).part n = []) :
    f'.remove n = f.remove n := by
  refine Face.ext twin.ofClass ?_
  rw [Face.properties_of_part none, Face.properties_of_part none', Face.others_remove,
    Face.others_remove, twin.others]

/-- **A deletion does not tell twins apart.** -/
theorem delete (m : Text) : (f'.delete m).1 = (f.delete m).1 ∧
    ((f'.delete m).2 = (f.delete m).2 ∨ Twin n entry (f.delete m).2 (f'.delete m).2) := by
  unfold Face.delete
  rw [twin.refusesDelete]
  cases refused : f.refusesDelete m with
  | true => exact ⟨rfl, Or.inr twin⟩
  | false =>
      rw [Bool.false_or, Bool.false_or]
      by_cases same : m = n
      · subst same
        rcases twin.parts with ⟨missing, stored⟩ | ⟨x, x', part, part', name, confuses⟩
        · have removable : entry.attributes.permanent = false := by
            by_contra permanent
            rw [Face.refusesDelete_of_permanent twin.function (by simpa using permanent)] at refused
            cases refused
          have own : f.own? m = none := Face.own?_of_part missing
          have own' : f'.own? m = some (entry.shown m) := Face.own?_of_part stored
          rw [own, own']
          simp only [Option.any_none, Option.any_some, StaticFunction.shown, removable]
          refine ⟨rfl, Or.inl (twin.eq_of_part ?_ ?_)⟩
          · simp [Face.part_remove, missing]
          · simp [Face.part_remove, stored, StaticFunction.shown]
        · have permanent := confuses.permanent.resolve_right (by rw [name, refused]; simp)
          have own : f.own? m = some x := Face.own?_of_part part
          have own' : f'.own? m = some x' := Face.own?_of_part part'
          rw [own, own', Option.any_some, Option.any_some, permanent]
          split
          · exact ⟨rfl, Or.inr twin⟩
          · refine ⟨rfl, Or.inl (twin.eq_of_part ?_ ?_)⟩
            · simp [Face.part_remove, part, name]
            · simp [Face.part_remove, part', confuses.name, name]
      · rw [twin.own?_of_ne same]
        split
        · exact ⟨rfl, Or.inr twin⟩
        · refine ⟨rfl, Or.inr (twin.of_others rfl rfl ?_ (Face.part_remove_of_ne same)
            (Face.part_remove_of_ne same))⟩
          rw [Face.others_remove_of_ne same, Face.others_remove_of_ne same, twin.others]

/-- The properties of the name are hidden on both, or the class lists the name. -/
theorem hidden : n ∈ f.declared ∨
    (∀ x ∈ f.part n, x.attributes.hidden = true) ∧ ∀ x ∈ f'.part n, x.attributes.hidden = true := by
  rcases twin.parts with ⟨missing, stored⟩ | ⟨x, x', part, part', name, confuses⟩
  · refine twin.confuses_shown.hidden.imp_right fun both => ?_
    rw [missing, stored]
    exact ⟨by simp, by simpa using both.1⟩
  · rw [part, part']
    exact name ▸ confuses.hidden.imp_right fun both =>
      ⟨by simpa using both.1, by simpa using both.2⟩

end Twin

/-! ### Names of twins -/

theorem Face.visible_of_hidden (hidden : ∀ x ∈ f.part n, x.attributes.hidden = true) :
    f.visible = ((f.others n).filter fun p => !p.attributes.hidden).map Shown.name := by
  rw [visible, others, List.filter_filter]
  congr 1
  refine List.filter_congr fun p mem => ?_
  by_cases same : p.name = n
  · simp [hidden p (List.mem_filter.mpr ⟨mem, by simpa using same⟩)]
  · simp [same]

theorem Face.filter_visible (f : Face) (n : Text) : (f.visible.filter fun m => m != n) =
    ((f.others n).filter fun p => !p.attributes.hidden).map Shown.name := by
  rw [visible, others, List.filter_map, List.filter_filter, List.filter_filter]
  congr 1
  exact List.filter_congr fun p _ => Bool.and_comm ..

/-- A name that was listed before need not be listed again. -/
theorem firstOccurrences_filter {before : List Text} (mem : n ∈ before) (names later : List Text) :
    View.firstOccurrences (before ++ (names ++ later)) =
      View.firstOccurrences (before ++ ((names.filter fun m => m != n) ++ later)) := by
  have again : (names ++ later).removeAll before =
      ((names.filter fun m => m != n) ++ later).removeAll before := by
    unfold List.removeAll
    rw [List.filter_append, List.filter_append, List.filter_filter]
    congr 1
    refine List.filter_congr fun m _ => ?_
    by_cases same : m = n
    · simp [same, mem]
    · simp [same]
  rw [View.firstOccurrences, View.firstOccurrences, List.eraseDups_append, List.eraseDups_append,
    again]

/-- **Names do not tell twins apart**, whatever is listed before and after them. -/
theorem Twin.listed (twin : Twin n entry f f') (before later : List Text) :
    View.firstOccurrences (before ++ (f'.listed ++ later)) =
      View.firstOccurrences (before ++ (f.listed ++ later)) := by
  have others : (f'.visible.filter fun m => m != n) = f.visible.filter fun m => m != n := by
    rw [Face.filter_visible, Face.filter_visible, twin.others]
  unfold Face.listed
  rw [twin.declared]
  rcases twin.hidden with declared | ⟨hidden, hidden'⟩
  · rw [List.append_assoc, List.append_assoc, ← List.append_assoc before,
      ← List.append_assoc before, firstOccurrences_filter (List.mem_append_right _ declared),
      others, ← firstOccurrences_filter (List.mem_append_right _ declared)]
  · rw [Face.visible_of_hidden hidden, Face.visible_of_hidden hidden', twin.others]

/-! ### Chains with twins -/

/-- The faces are the same, but one object may have a twin. -/
def Alike (n : Text) (entry : StaticFunction) (q : Handle) (F F' : Handle → Face) : Prop :=
  ∀ p, F' p = F p ∨ p = q ∧ Twin n entry (F p) (F' p)

namespace Access

/-- The access is no write of the name that is to be listed, unless the class lists the name
anyway or ends the write. -/
def Keeps {V : Type} (f : Face) (n : Text) : Access V → Prop
  | .set name _ attributes =>
    name = n → n ∈ f.declared ∨ f.refusesWrite n = true ∨ attributes.hidden = true
  | _ => True

theorem Keeps.congr {V : Type} {a : Access V} (keeps : a.Keeps f n)
    (ofClass : f'.ofClass = f.ofClass) : a.Keeps f' n := by
  cases a with
  | set name v attributes =>
      unfold Keeps Face.declared Face.refusesWrite
      rw [ofClass]
      exact keeps
  | _ => trivial

end Access

namespace Alike

variable {q o : Handle} {F F' : Handle → Face} (alike : Alike n entry q F F')
  (chain : List Handle)
include alike

theorem update (p : Handle) {g g' : Face} (changed : g' = g ∨ p = q ∧ Twin n entry g g') :
    Alike n entry q (Function.update F p g) (Function.update F' p g') := by
  intro r
  by_cases same : r = p
  · subst same
    rw [Function.update_self, Function.update_self]
    exact changed
  · rw [Function.update_of_ne same, Function.update_of_ne same]
    exact alike r

theorem hasOn (m : Text) (budget : Nat) : hasOn m F' budget chain = hasOn m F budget chain := by
  induction chain generalizing budget with
  | nil => cases budget <;> rfl
  | cons p ps ih =>
      cases budget with
      | zero => rfl
      | succ budget =>
          have has : (F' p).has m = (F p).has m :=
            (alike p).elim (fun same => by rw [same]) fun twin => twin.2.has m
          unfold HostObjects.hasOn
          rw [has, ih]

theorem readOn (m : Text) (budget : Nat) :
    (readOn m F' budget chain).1 = (readOn m F budget chain).1 ∧
      Alike n entry q (readOn m F budget chain).2 (readOn m F' budget chain).2 := by
  induction chain generalizing budget with
  | nil => cases budget <;> exact ⟨rfl, alike⟩
  | cons p ps ih =>
      cases budget with
      | zero => exact ⟨rfl, alike⟩
      | succ budget =>
          unfold HostObjects.readOn
          rcases alike p with same | ⟨rfl, twin⟩
          · rw [same]
            cases (F p).read m with
            | none => exact ih budget
            | some found => exact ⟨rfl, alike.update p (Or.inl rfl)⟩
          · rcases twin.read m with ⟨none, none'⟩ | ⟨c, g, g', some, some', after⟩
            · rw [none, none']
              exact ih budget
            · rw [some, some']
              exact ⟨rfl, alike.update p (after.imp_right fun twin => ⟨rfl, twin⟩)⟩

theorem listedOn (budget : Nat) (before : List Text) :
    ((listedOn F' budget chain).map fun ns => View.firstOccurrences (before ++ ns)) =
      (listedOn F budget chain).map fun ns => View.firstOccurrences (before ++ ns) := by
  induction chain generalizing budget before with
  | nil => cases budget <;> rfl
  | cons p ps ih =>
      cases budget with
      | zero => rfl
      | succ budget =>
          have first : ∀ later, View.firstOccurrences (before ++ ((F' p).listed ++ later)) =
              View.firstOccurrences (before ++ ((F p).listed ++ later)) := fun later =>
            (alike p).elim (fun same => by rw [same]) fun twin => twin.2.listed before later
          have rest := ih budget (before ++ (F p).listed)
          unfold HostObjects.listedOn
          rcases listed' : HostObjects.listedOn F' budget ps with e' | ns' <;>
            rcases listed : HostObjects.listedOn F budget ps with e | ns <;>
            rw [listed', listed] at rest <;> simp only [Except.map] at rest ⊢
          · exact congrArg Except.error (Except.error.inj rest)
          · cases rest
          · cases rest
          · rw [first, ← List.append_assoc, ← List.append_assoc]
            exact rest

theorem storeOn (m : Text) (attributes : Attributes) (allowed : (F o).refusesWrite m = false)
    (listed : q = o → m = n → n ∈ (F o).declared ∨ attributes.hidden = true)
    (content : Except Fault Content) :
    (storeOn o F' m attributes content).1 = (storeOn o F m attributes content).1 ∧
      Alike n entry q (storeOn o F m attributes content).2
        (storeOn o F' m attributes content).2 := by
  cases content with
  | error e => exact ⟨rfl, alike⟩
  | ok c =>
      refine ⟨rfl, alike.update o ?_⟩
      rcases alike o with same | ⟨rfl, twin⟩
      · exact Or.inl (by rw [same])
      · exact Or.inr ⟨rfl, twin.write ⟨m, c, attributes⟩ allowed (listed rfl)⟩

/-- **Accesses do not tell alike faces apart, and they leave alike faces.** -/
theorem on {a : Access (Except Fault Content)} (keeps : q = o → a.Keeps (F o) n) :
    (a.on o chain F').1 = (a.on o chain F).1 ∧
      Alike n entry q (a.on o chain F).2 (a.on o chain F').2 := by
  cases a with
  | has m => exact ⟨congrArg (Except.map Reply.truth) (alike.hasOn chain m _), alike⟩
  | get m =>
      have read := alike.readOn chain m maxPrototypeChain
      exact ⟨congrArg (Except.map _) read.1, read.2⟩
  | set m content attributes =>
      have refuses : (F' o).refusesWrite m = (F o).refusesWrite m :=
        (alike o).elim (fun same => by rw [same]) fun twin => twin.2.refusesWrite m
      simp only [Access.on, refuses]
      cases refused : (F o).refusesWrite m with
      | true => exact ⟨rfl, alike⟩
      | false =>
          refine alike.storeOn m attributes refused (fun here same => ?_) content
          refine (keeps here same).imp_right fun or => or.resolve_left ?_
          rw [← same, refused]
          simp
  | delete m =>
      simp only [Access.on]
      rcases alike o with same | ⟨rfl, twin⟩
      · rw [same]
        exact ⟨rfl, alike.update o (Or.inl rfl)⟩
      · obtain ⟨answer, after⟩ := twin.delete m
        rw [answer]
        exact ⟨rfl, alike.update o (after.imp_right fun twin => ⟨rfl, twin⟩)⟩
  | names =>
      refine ⟨?_, alike⟩
      have shape : ∀ r : Except Fault (List Text),
          (r.map fun ns => Reply.names (View.firstOccurrences ns) :
            Except Fault (Reply Content)) =
          (r.map fun ns => View.firstOccurrences ([] ++ ns)).map Reply.names := by
        rintro (_ | _) <;> rfl
      simp only [Access.on, shape, alike.listedOn]

/-- **Sequences of accesses do not tell alike faces apart.** -/
theorem allOn {as : List (Access (Except Fault Content))}
    (keeps : q = o → ∀ a ∈ as, a.Keeps (F o) n) :
    Access.allOn o chain as F' = Access.allOn o chain as F := by
  induction as generalizing F F' with
  | nil => rfl
  | cons a as ih =>
      obtain ⟨answer, after⟩ := alike.on (a := a) chain
        fun here => keeps here a List.mem_cons_self
      unfold Access.allOn
      rw [answer, ih after fun here b mem => ?_]
      exact (keeps here b (List.mem_cons_of_mem _ mem)).congr (Access.ofClass_on ..)

end Alike

/-- What a read stores makes a twin. -/
theorem twin_add (function : f.function? n = some entry) (missing : f.own? n = none) :
    Twin n entry f (f.add (entry.shown n)) where
  ofClass := rfl
  function := function
  others := by simp [Face.others_add, StaticFunction.shown]
  parts := by
    rw [Face.own?_eq_head?, List.head?_eq_none_iff] at missing
    exact Or.inl ⟨missing, by simp [Face.part_add, missing, StaticFunction.shown]⟩

/-- A read leaves the faces as they are or makes a twin of one that has a function of the
name. -/
theorem readOn_alike (n : Text) (F : Handle → Face) (budget : Nat) (chain : List Handle) :
    (readOn n F budget chain).2 = F ∨
      ∃ q entry, (F q).function? n = some entry ∧
        Alike n entry q F (readOn n F budget chain).2 := by
  induction chain generalizing budget with
  | nil => cases budget <;> exact Or.inl rfl
  | cons p ps ih =>
      cases budget with
      | zero => exact Or.inl rfl
      | succ budget =>
          unfold readOn Face.read
          cases own : (F p).own? n with
          | some q => exact Or.inl (Function.update_eq_self p F)
          | none =>
              cases function : (F p).function? n with
              | none => exact ih budget
              | some entry =>
                  refine Or.inr ⟨p, entry, function, fun r => ?_⟩
                  by_cases same : r = p
                  · subst same
                    refine Or.inr ⟨rfl, ?_⟩
                    simpa only [Option.map_some, Function.update_self] using twin_add function own
                  · exact Or.inl (Function.update_of_ne same _ F)

/-- **Accesses do not tell whether a property was read before.** -/
theorem allOn_get {n : Text} {o : Handle} {chain : List Handle} {F : Handle → Face}
    {as : List (Access (Except Fault Content))}
    (keeps : (F o).function? n = none ∨ ∀ a ∈ as, a.Keeps (F o) n) :
    Access.allOn o chain as ((Access.get n).on o chain F).2 = Access.allOn o chain as F := by
  rcases readOn_alike n F maxPrototypeChain chain with same | ⟨q, entry, function, alike⟩
  · exact congrArg (Access.allOn o chain as) same
  · refine alike.allOn chain fun here => keeps.resolve_left ?_
    rw [← here, function]
    simp

end HostObjects
