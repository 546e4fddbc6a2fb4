import HostObjects.Proofs.View.Access

/-!
# Existence tests

An object has entries under a name (`Row.entries`): the first static value of each class of its
class chain, the first static function of each class whose functions are found on the object
itself, and the own property.  An existence test finds the name if a callback says so or there
is an entry (`hasAt_of_asked`).

Callbacks may do anything, so a test is known in advance only where they are harmless: they
answer, and change nothing.  Then a property exists iff a class on the chain affirms it or an
object on the chain has an entry (`hasProperty_iff_of_harmless`).
-/

namespace HostObjects

open Heap

variable {σ α : Type} {host : Host σ} {s s' t : Session σ} {o p : Handle} {chain : List Handle}
  {name : Text} {c : Class} {d : Descriptor} {ds : List Descriptor}

/-! ### Entries -/

namespace Row

/-- The class chain of the object, empty for an object without a class. -/
def classes (r : Row) : List Descriptor := (r.ofClass.map Class.chain).getD []

/-- The classes whose static functions are found on the object itself. -/
def functionClasses (r : Row) : List Descriptor := (r.ofClass.map Class.onInstance).getD []

/-- The attributes of everything that the object has under a name: of the first static value
of each class, of the first static function of each class whose functions are found on the
object, and of the own property. -/
def entries (r : Row) (name : Text) : List Attributes :=
  (r.classes.filterMap fun d => (d.value? name).map StaticValue.attributes) ++
    (r.functionClasses.filterMap fun d => (d.function? name).map StaticFunction.attributes) ++
    (r.properties.filter fun p => p.name == name).map Property.attributes

end Row

/-- Of the entries of a name only the first can be shown. -/
theorem mem_visibleFirsts {β : Type} {nameOf : β → Text} {attributes : β → Attributes}
    {as : List β} :
    name ∈ ((Descriptor.firstsBy nameOf [] as).filter fun a => !(attributes a).hidden).map nameOf ↔
      ∃ a, as.find? (fun a => nameOf a == name) = some a ∧ (attributes a).hidden = false := by
  have nodup : ((Descriptor.firstsBy nameOf [] as).map nameOf).Nodup :=
    (Descriptor.nodup_firstsBy [] as).1
  rw [← Descriptor.find?_firstsBy [] as List.not_mem_nil]
  generalize Descriptor.firstsBy nameOf [] as = firsts at nodup
  simp only [List.mem_map, List.mem_filter, Bool.not_eq_true']
  constructor
  · rintro ⟨a, ⟨mem, shown⟩, named⟩
    obtain ⟨b, found⟩ : ∃ b, firsts.find? (fun a => nameOf a == name) = some b :=
      Option.isSome_iff_exists.mp (List.find?_isSome.mpr ⟨a, mem, beq_iff_eq.mpr named⟩)
    have same : nameOf b = name := by simpa using List.find?_some found
    have eq : b = a := List.inj_on_of_nodup_map nodup (List.mem_of_find?_eq_some found) mem
      (same.trans named.symm)
    exact ⟨a, eq ▸ found, shown⟩
  · rintro ⟨a, found, shown⟩
    exact ⟨a, ⟨List.mem_of_find?_eq_some found, shown⟩, by simpa using List.find?_some found⟩

theorem mem_visibleValues :
    name ∈ View.visibleValues d ↔ ∃ v, d.value? name = some v ∧ v.attributes.hidden = false :=
  mem_visibleFirsts

theorem mem_visibleFunctions :
    name ∈ View.visibleFunctions d ↔
      ∃ f, d.function? name = some f ∧ f.attributes.hidden = false :=
  mem_visibleFirsts

theorem Class.mem_declaredNames :
    name ∈ c.declaredNames ↔
      (∃ d ∈ c.chain, name ∈ View.visibleValues d) ∨
        ∃ d ∈ c.onInstance, name ∈ View.visibleFunctions d := by
  rw [c.chain_eq_append]
  simp only [Class.declaredNames, List.mem_append, List.mem_flatMap, and_or_left, or_and_right,
    exists_or, or_assoc]

namespace Row

variable {r : Row}

theorem mem_entries {a : Attributes} :
    a ∈ r.entries name ↔
      (∃ d ∈ r.classes, ∃ v, d.value? name = some v ∧ v.attributes = a) ∨
        (∃ d ∈ r.functionClasses, ∃ f, d.function? name = some f ∧ f.attributes = a) ∨
          ∃ p ∈ r.properties, p.name = name ∧ p.attributes = a := by
  simp only [entries, List.mem_append, List.mem_filterMap, List.mem_map, List.mem_filter,
    Option.map_eq_some_iff, beq_iff_eq, and_assoc, or_assoc]

theorem entries_eq_nil_iff :
    r.entries name = [] ↔
      (∀ d ∈ r.classes, d.value? name = none) ∧
        (r.functionClasses.findSome? fun d => d.function? name) = none ∧
          Property.find? r.properties name = none := by
  simp only [entries, List.append_eq_nil_iff, List.filterMap_eq_nil_iff, List.map_eq_nil_iff,
    List.filter_eq_nil_iff, Option.map_eq_none_iff, List.findSome?_eq_none_iff, Property.find?,
    List.find?_eq_none, and_assoc]

/-- An object has an entry of a name iff one of its classes or the object itself has. -/
theorem entries_ne_nil_iff :
    r.entries name ≠ [] ↔
      (r.classes.any (fun d => (d.value? name).isSome) ||
        r.functionClasses.any (fun d => (d.function? name).isSome) ||
        (Property.find? r.properties name).isSome) = true := by
  rw [ne_eq, entries_eq_nil_iff, ← Option.not_isSome_iff_eq_none (o := Property.find? _ _),
    ← Option.not_isSome_iff_eq_none (o := List.findSome? _ _), List.isSome_findSome?]
  simp only [Bool.or_eq_true, List.any_eq_true, Option.isSome_iff_ne_none, not_and_or, not_forall,
    exists_prop, not_not, or_assoc]

/-- **What an object lists are the names of its visible entries.** -/
theorem mem_listed : name ∈ r.listed [] ↔ ∃ a ∈ r.entries name, a.hidden = false := by
  have own : name ∈ Property.visibleNames r.properties ↔
      ∃ p ∈ r.properties, p.name = name ∧ p.attributes.hidden = false := by
    simp only [Property.visibleNames, List.mem_map, List.mem_filter, Bool.not_eq_true']
    exact exists_congr fun p => by tauto
  have declared : name ∈ r.declared ↔
      (∃ d ∈ r.classes, ∃ v, d.value? name = some v ∧ v.attributes.hidden = false) ∨
        ∃ d ∈ r.functionClasses, ∃ f, d.function? name = some f ∧ f.attributes.hidden = false := by
    unfold Row.declared classes functionClasses
    cases r.ofClass with
    | none => simp
    | some c =>
        simp only [Option.map_some, Option.getD_some, Class.mem_declaredNames, mem_visibleValues,
          mem_visibleFunctions]
  simp only [listed, List.flatten_nil, List.nil_append, List.mem_append, own, declared,
    mem_entries]
  constructor
  · rintro ((⟨d, mem, v, found, shown⟩ | ⟨d, mem, f, found, shown⟩) | ⟨q, mem, named, shown⟩)
    · exact ⟨_, Or.inl ⟨d, mem, v, found, rfl⟩, shown⟩
    · exact ⟨_, Or.inr (Or.inl ⟨d, mem, f, found, rfl⟩), shown⟩
    · exact ⟨_, Or.inr (Or.inr ⟨q, mem, named, rfl⟩), shown⟩
  · rintro ⟨a, ⟨d, mem, v, found, rfl⟩ | ⟨d, mem, f, found, rfl⟩ | ⟨q, mem, named, rfl⟩, shown⟩
    · exact Or.inl (Or.inl ⟨d, mem, v, found, shown⟩)
    · exact Or.inl (Or.inr ⟨d, mem, f, found, shown⟩)
    · exact Or.inr ⟨q, mem, named, shown⟩

end Row

/-! ### Existence at one object -/

theorem Heap.hasOwn_row (valid : t.heap.isValid p = true) :
    t.heap.hasOwn p name = .ok (Property.find? (t.heap.row p).properties name).isSome := by
  obtain ⟨obj, found⟩ := isValid_iff.mp valid
  simp [Heap.hasOwn, Heap.ownProperty, Heap.row, found, Except.map]

theorem Heap.getOwn_row (valid : t.heap.isValid p = true) :
    t.heap.getOwn p name =
      .ok ((Property.find? (t.heap.row p).properties name).map Property.value) := by
  obtain ⟨obj, found⟩ := isValid_iff.mp valid
  simp [Heap.getOwn, Heap.ownProperty, Heap.row, found, Except.map]

/-- The session in which the callbacks of an object are asked. -/
def Session.asking (t : Session σ) (p : Handle) : Session σ :=
  t.hold (t.heap.row p).ofClass.toList

/-- **An object answers the existence test if a callback does or it has an entry.** -/
theorem hasAt_of_asked {r : Except Fault Bool} (valid : t.heap.isValid p = true)
    (asked : View.hasByCallbacks host p name (t.heap.row p).classes (t.asking p) =
      (r, t.asking p)) :
    View.hasAt host p name t =
      (r.map fun found => found || decide ((t.heap.row p).entries name ≠ []), t) := by
  simp only [Row.entries_ne_nil_iff, Bool.decide_eq_true]
  have ofClass := classOf_row valid
  unfold Session.asking at asked
  unfold View.hasAt
  rw [bind_apply]
  simp only [Action.reading, ofClass]
  cases c? : (t.heap.row p).ofClass with
  | none =>
      simp only [Row.classes, Row.functionClasses, c?, Option.map_none, Option.getD_none,
        List.any_nil, Bool.false_or] at asked ⊢
      cases (Prod.mk.inj asked).1
      exact Prod.ext (Heap.hasOwn_row valid) rfl
  | some c =>
      simp only [Row.classes, Row.functionClasses, c?, Option.map_some, Option.getD_some,
        Option.toList_some] at asked ⊢
      have byClass : View.hasByClass host p name c (t.hold [c]) =
          (r.map fun found => found || (c.hasStaticValue name || c.hasInstanceFunction name),
            t.hold [c]) := by
        unfold View.hasByClass
        rw [bind_apply, asked]
        rcases r with e | _ | _ <;> rfl
      rw [bind_apply, holding_apply, byClass]
      rcases r with e | _ | _
      · rfl
      · show (if (c.hasStaticValue name || c.hasInstanceFunction name) = true then pure true
            else Action.reading fun h => h.hasOwn p name : Action σ Bool) t =
          (.ok (c.hasStaticValue name || c.hasInstanceFunction name ||
            (Property.find? (t.heap.row p).properties name).isSome), t)
        cases c.hasStaticValue name || c.hasInstanceFunction name with
        | true => rfl
        | false => exact Prod.ext (Heap.hasOwn_row valid) rfl
      · rfl

/-! ### Callbacks without effects -/

/-- The action answers and changes nothing. -/
def Action.Harmless (act : Action σ α) : Prop := ∀ t, ∃ a, act t = (.ok a, t)

/-- The callbacks that an existence test may ask on the chain answer and change nothing. -/
def Host.HarmlessOn (host : Host σ) (h : Heap) (chain : List Handle) (name : Text) : Prop :=
  ∀ p ∈ chain, ∀ d ∈ (h.row p).classes, ∀ f,
    (d.callbacks .has = some f → Action.Harmless (host.answer f (.has p name))) ∧
      (d.callbacks .get = some f → Action.Harmless (host.answer f (.get p name)))

/-- What one class says to the existence test: its `has` callback answers, or its `get`
callback where it has no other. -/
def Host.affirms (host : Host σ) (p : Handle) (name : Text) (d : Descriptor) : Action σ Bool :=
  match d.callbacks .has, d.callbacks .get with
  | some f, _ => host.answer f (.has p name)
  | none, some f => Option.isSome <$> host.answer f (.get p name)
  | none, none => pure false

theorem hasByCallbacks_cons :
    View.hasByCallbacks host p name (d :: ds) =
      (host.affirms p name d >>= fun found =>
        if found then pure true else View.hasByCallbacks host p name ds) := by
  rw [View.hasByCallbacks, Host.affirms]
  cases d.callbacks .has <;> cases d.callbacks .get <;> rfl

theorem Action.Harmless.map {β : Type} {act : Action σ α} (harmless : act.Harmless)
    (f : α → β) : (f <$> act).Harmless := by
  intro t
  obtain ⟨a, run⟩ := harmless t
  exact ⟨f a, by rw [map_apply, run]⟩

theorem harmless_affirms
    (harmless : ∀ f,
      (d.callbacks .has = some f → Action.Harmless (host.answer f (.has p name))) ∧
        (d.callbacks .get = some f → Action.Harmless (host.answer f (.get p name)))) :
    (host.affirms p name d).Harmless := by
  unfold Host.affirms
  cases has : d.callbacks .has with
  | some f => exact (harmless f).1 has
  | none =>
      cases get : d.callbacks .get with
      | some f => exact ((harmless f).2 get).map _
      | none => exact fun t => ⟨false, rfl⟩

/-- A class chain of which every class answers says yes iff one of them does. -/
theorem hasByCallbacks_of_harmless (harmless : ∀ d ∈ ds, (host.affirms p name d).Harmless) :
    ∃ found, View.hasByCallbacks host p name ds t = (.ok found, t) ∧
      (found = true ↔ ∃ d ∈ ds, host.affirms p name d t = (.ok true, t)) := by
  induction ds with
  | nil => exact ⟨false, rfl, by simp⟩
  | cons d ds ih =>
      obtain ⟨rest, asked, affirmed⟩ := ih fun d mem => harmless d (List.mem_cons_of_mem _ mem)
      obtain ⟨found, run⟩ := harmless d List.mem_cons_self t
      rw [hasByCallbacks_cons, bind_apply, run]
      cases found with
      | true => exact ⟨true, rfl, iff_of_true rfl ⟨d, List.mem_cons_self, run⟩⟩
      | false =>
          refine ⟨rest, asked, affirmed.trans ⟨fun ⟨e, mem, said⟩ => ?_, fun ⟨e, mem, said⟩ => ?_⟩⟩
          · exact ⟨e, List.mem_cons_of_mem _ mem, said⟩
          · rcases List.mem_cons.mp mem with rfl | mem
            · rw [run] at said
              cases said
            · exact ⟨e, mem, said⟩

/-! ### Along the chain -/

/-- An action that changes nothing with its operands rooted, and gives back no value, changes
nothing at all. -/
theorem withOperands_of_still {operands : List Value} {returned : α → Option Value}
    {body : Action σ α} {r : Except Fault α} (valid : s.heap.isValid o = true)
    (run : body (s.withHeap (s.heap.rootAll operands)) =
      (r, s.withHeap (s.heap.rootAll operands)))
    (nothing : ∀ a, returned a = none) :
    Action.withOperands o operands returned body s = (r, s) := by
  have restored : (s.withHeap (s.heap.rootAll operands)).heap.cutStack s.heap.stack.size =
      s.heap := s.heap.cutStack_rootAll operands
  rw [withOperands_apply valid, run]
  cases r with
  | error e =>
      simp only [restored]
      rfl
  | ok a =>
      simp only [restored, nothing]
      rfl

/-- The session in which an operation on an object runs: the object is rooted. -/
def Session.on (s : Session σ) (o : Handle) : Session σ :=
  s.withHeap (s.heap.rootAll [.object o])

theorem Session.row_on (s : Session σ) (o : Handle) : (s.on o).heap.row = s.heap.row := by
  funext p
  show (s.heap.rootAll [.object o]).row p = _
  rw [Heap.row, Heap.row, (s.heap.sameTable_rootAll _).object]

theorem Heap.PrototypeChain.on (walk : PrototypeChain s.heap o chain) (q : Handle) :
    PrototypeChain (s.on q).heap o chain :=
  walk.congr fun p _ => by
    show (s.heap.rootAll [.object q]).prototype p = _
    rw [Heap.prototype, Heap.prototype, (s.heap.sameTable_rootAll _).object]

theorem visitHas_eq_inl_iff :
    visitHas host name () p t = (.ok (.inl ()), s') ↔
      View.hasAt host p name t = (.ok true, s') := by
  unfold visitHas
  rw [bind_apply]
  rcases View.hasAt host p name t with ⟨e | _ | _, t'⟩ <;>
    constructor <;> intro run <;> cases run <;> rfl

theorem visitHas_eq_inr_iff :
    visitHas host name () p t = (.ok (.inr ()), s') ↔
      View.hasAt host p name t = (.ok false, s') := by
  unfold visitHas
  rw [bind_apply]
  rcases View.hasAt host p name t with ⟨e | _ | _, t'⟩ <;>
    constructor <;> intro run <;> cases run <;> rfl

theorem still_visitHas (same : (View.hasAt host p name t).2 = t) :
    ∀ s', visitHas host name () p t = (.ok (.inr ()), s') → s' = t := by
  intro s' run
  rwa [visitHas_eq_inr_iff.mp run] at same

/-- **An existence test visits the chain and changes nothing**, if the tests at its objects
change nothing. -/
theorem hasProperty_of_still (walk : PrototypeChain s.heap o chain)
    (still : ∀ p ∈ chain, (View.hasAt host p name (s.on o)).2 = s.on o) :
    View.hasProperty host o name s =
      ((visitAll (visitHas host name) maxPrototypeChain () chain (s.on o)).1.map Sum.isLeft,
        s) := by
  have same : ∀ p ∈ chain, ∀ acc, (visitHas host name acc p (s.on o)).2 = s.on o := by
    intro p mem acc
    have state := still p mem
    rw [visitHas, bind_apply]
    rcases run : View.hasAt host p name (s.on o) with ⟨_ | _, t⟩ <;> rw [run] at state <;>
      exact state
  have walked : walkFrom (visitHas host name) () (some o) (s.on o) = _ :=
    walkFrom_of_still (walk.on o) (fun p mem acc _ t run => by
      have state := same p mem acc
      rwa [run] at state) ()
  have state := visitAll_snd_of_still same maxPrototypeChain ()
  have form : View.hasProperty host o name = _ :=
    (Invocation.has o name).perform_eq_withOperands rfl
  rw [form]
  refine withOperands_of_still walk.isValid_start ?_ fun _ => rfl
  show (walkFrom (visitHas host name) () (some o) >>= _) (s.on o) = (_, s.on o)
  rw [bind_apply, walked]
  rcases run : visitAll (visitHas host name) maxPrototypeChain () chain (s.on o) with
    ⟨_ | _, t⟩ <;>
    rw [run] at state <;> obtain rfl := state <;> rfl

/-- Where callbacks are harmless, an object answers the existence test if one of them says so
or it has an entry. -/
theorem hasAt_of_harmless (valid : t.heap.isValid p = true)
    (harmless : ∀ d ∈ (t.heap.row p).classes, (host.affirms p name d).Harmless) :
    ∃ found, View.hasAt host p name t = (.ok found, t) ∧
      (found = true ↔
        (∃ d ∈ (t.heap.row p).classes,
          host.affirms p name d (t.asking p) = (.ok true, t.asking p)) ∨
        (t.heap.row p).entries name ≠ []) := by
  obtain ⟨found, asked, affirmed⟩ := hasByCallbacks_of_harmless (t := t.asking p) harmless
  refine ⟨_, hasAt_of_asked valid asked, ?_⟩
  rw [Bool.or_eq_true, decide_eq_true_eq, affirmed]

/-- **Where callbacks are harmless, a property exists iff one of them says so or an object of the
chain has an entry.** -/
theorem hasProperty_iff_of_harmless (walk : PrototypeChain s.heap o chain)
    (short : chain.length ≤ maxPrototypeChain) (harmless : host.HarmlessOn s.heap chain name) :
    (View.hasProperty host o name s).1 = .ok true ↔
      ∃ p ∈ chain,
        (∃ d ∈ (s.heap.row p).classes,
          host.affirms p name d ((s.on o).asking p) = (.ok true, (s.on o).asking p)) ∨
        (s.heap.row p).entries name ≠ [] := by
  have here : ∀ p ∈ chain, ∃ found, View.hasAt host p name (s.on o) = (.ok found, s.on o) ∧
      (found = true ↔
        (∃ d ∈ (s.heap.row p).classes,
          host.affirms p name d ((s.on o).asking p) = (.ok true, (s.on o).asking p)) ∨
        (s.heap.row p).entries name ≠ []) := by
    intro p mem
    have harmless := harmless p mem
    rw [← s.row_on o] at harmless ⊢
    exact hasAt_of_harmless ((walk.on o).isValid p mem) fun d there =>
      harmless_affirms (harmless d there)
  have same : ∀ p ∈ chain, (View.hasAt host p name (s.on o)).2 = s.on o := by
    intro p mem
    obtain ⟨found, run, -⟩ := here p mem
    rw [run]
  have goesOn := fun p mem => still_visitHas (same p mem)
  have answers : ∀ p ∈ chain, ∃ r, visitHas host name () p (s.on o) = (.ok r, s.on o) := by
    intro p mem
    obtain ⟨found, run, -⟩ := here p mem
    cases found with
    | true => exact ⟨.inl (), visitHas_eq_inl_iff.mpr run⟩
    | false => exact ⟨.inr (), visitHas_eq_inr_iff.mpr run⟩
  obtain ⟨r, answered⟩ := visitAll_answers answers short
  rw [hasProperty_of_still walk same, answered]
  cases r with
  | inl _ =>
      obtain ⟨before, p, after, rfl, -, -, yes⟩ := answered_of_visitAll goesOn answered
      have mem : p ∈ before ++ p :: after := by simp
      obtain ⟨found, run, found_iff⟩ := here p mem
      rw [visitHas_eq_inl_iff, run] at yes
      cases yes
      exact iff_of_true rfl ⟨p, mem, found_iff.mp rfl⟩
  | inr _ =>
      refine iff_of_false nofun fun ⟨p, mem, there⟩ => ?_
      obtain ⟨found, run, found_iff⟩ := here p mem
      have no := (unanswered_of_visitAll goesOn answered).2 p mem
      rw [visitHas_eq_inr_iff, run, found_iff.mpr there] at no
      cases no

end HostObjects
