import HostObjects.Proofs.View.Reach

/-!
# Operations with callbacks

The operations of a view that ask functions of the host keep every lingering property
of the session, if those functions do, and if the write or the deletion at the object does
that an operation may come to.  The lemmas follow the operations: one for each function, by
recursion along the class chain where the function is.
-/

namespace HostObjects

open Heap

variable {σ α β : Type} {J : Session σ → Prop}

/-- A walk keeps what each of its visits keeps. -/
theorem keeps_walkFrom {visit : β → Handle → Action σ (α ⊕ β)}
    (keep : ∀ acc o, Preserves J (visit acc o)) (start : β) (o : Option Handle) :
    Preserves J (walkFrom visit start o) := by
  unfold walkFrom
  generalize maxPrototypeChain = budget
  generalize (∅ : Std.HashSet Handle) = visited
  induction budget generalizing visited start o with
  | zero =>
      cases o with
      | none => exact Preserves.pure _
      | some o => exact Preserves.throw _
  | succ budget ih =>
      cases o with
      | none => exact Preserves.pure _
      | some o =>
          unfold walk
          refine Preserves.ite (fun _ => Preserves.throw _) fun _ => ?_
          refine (keep start o).bind fun out => ?_
          cases out with
          | inl a => exact Preserves.pure _
          | inr acc => exact (keeps_reading _).bind fun next => ih _ _ _

variable {host : Host σ} {base : Nat}
  (lingering : Lingering host base J) (lawful : host.Keeps J)
include lawful

/-! ### Making objects -/

theorem keeps_setUpAlong (o : Handle) (ds : List Descriptor) :
    Preserves J (View.setUpAlong host o ds) := by
  induction ds with
  | nil => exact Preserves.pure _
  | cons d ds ih =>
      unfold View.setUpAlong
      cases d.callbacks .setUp with
      | some f => exact (lawful f _).bind fun _ => ih
      | none => exact ih

include lingering in
theorem keeps_makeObject (c : Option Class) (data : Option PrivateData) :
    Preserves J (View.makeObject host c data) := by
  unfold View.makeObject
  cases c with
  | none =>
      refine keeps_orDiscard lingering.toTender data ((keeps_makePlain lingering).bind fun o => ?_)
      exact (keeps_discarding lingering.toTender data).bind fun _ => Preserves.pure _
  | some c =>
      refine (keeps_makeInstance lingering.toTender c data).bind fun o => ?_
      refine (keeps_push lingering _).bind fun _ => ?_
      exact (keeps_setUpAlong lawful o _).bind fun _ => Preserves.pure _

/-! ### Existence -/

theorem keeps_hasByCallbacks (o : Handle) (name : Text) (ds : List Descriptor) :
    Preserves J (View.hasByCallbacks host o name ds) := by
  induction ds with
  | nil => exact Preserves.pure _
  | cons d ds ih =>
      have asked : ∀ found : Bool, Preserves J
          (if found = true then pure true else View.hasByCallbacks host o name ds) :=
        fun found => Preserves.ite (fun _ => Preserves.pure _) fun _ => ih
      unfold View.hasByCallbacks
      dsimp only
      split
      · exact (lawful _ _).bind asked
      · exact ((lawful _ _).map _).bind asked
      · exact asked false

include lingering

theorem keeps_hasAt (o : Handle) (name : Text) : Preserves J (View.hasAt host o name) := by
  refine (keeps_reading _).bind fun c => ?_
  cases c with
  | none => exact keeps_reading _
  | some c =>
      have byClass : Preserves J (View.hasByClass host o name c) :=
        (keeps_hasByCallbacks lawful o name c.chain).bind fun _ =>
          Preserves.ite (fun _ => Preserves.pure _) fun _ => Preserves.pure _
      refine (keeps_holding lingering.toTender _ byClass).bind fun found => ?_
      exact Preserves.ite (fun _ => Preserves.pure _) fun _ => keeps_reading _

theorem keeps_hasOnChain (o : Handle) (name : Text) :
    Preserves J (View.hasOnChain host o name) := by
  refine Preserves.bind ?_ fun _ => Preserves.pure _
  exact keeps_walkFrom
    (fun _ p => (keeps_hasAt lingering lawful p name).bind fun _ => Preserves.pure _) _ _

theorem keeps_hasProperty (o : Handle) (name : Text) :
    Preserves J (View.hasProperty host o name) :=
  keeps_operating lingering o (keeps_hasOnChain lingering lawful o name)

/-! ### Reading -/

omit lingering in
theorem keeps_getByCallbacks (o : Handle) (name : Text) (ds : List Descriptor) :
    Preserves J (View.getByCallbacks host o name ds) := by
  induction ds with
  | nil => exact Preserves.pure _
  | cons d ds ih =>
      unfold View.getByCallbacks
      cases d.callbacks .get with
      | none => exact ih
      | some f =>
          refine (lawful f _).bind fun v => ?_
          cases v with
          | some v => exact Preserves.pure _
          | none => exact ih

omit lingering in
theorem keeps_getByGetters (o : Handle) (name : Text) (ds : List Descriptor) :
    Preserves J (View.getByGetters host o name ds) := by
  induction ds with
  | nil => exact Preserves.pure _
  | cons d ds ih =>
      unfold View.getByGetters
      cases (d.value? name).bind StaticValue.getter with
      | none => exact ih
      | some f =>
          refine (lawful f _).bind fun v => ?_
          cases v with
          | some v => exact Preserves.pure _
          | none => exact ih

theorem keeps_getAt (o : Handle) (name : Text) : Preserves J (View.getAt host o name) := by
  refine (keeps_reading _).bind fun c => ?_
  cases c with
  | none => exact keeps_reading _
  | some c =>
      refine keeps_holding lingering.toTender _ ?_
      refine (keeps_getByCallbacks lawful o name c.chain).bind fun v => ?_
      cases v with
      | some v => exact Preserves.pure _
      | none =>
          refine (keeps_getByGetters lawful o name c.chain).bind fun v => ?_
          cases v with
          | some v => exact Preserves.pure _
          | none =>
              dsimp only
              split
              · exact (lingering.instanceFunction o _ name).bind fun _ =>
                  Preserves.pure _
              · exact keeps_reading _

theorem keeps_lookUp (o : Handle) (name : Text) :
    Preserves J (View.lookUp host o name) := by
  refine Preserves.bind (keeps_walkFrom (fun acc p => ?_) () (some o)) fun out => ?_
  · refine (keeps_getAt lingering lawful p name).bind fun v => ?_
    cases v <;> exact Preserves.pure _
  · cases out <;> exact Preserves.pure _

theorem keeps_getProperty (o : Handle) (name : Text) :
    Preserves J (View.getProperty host o name) :=
  (keeps_operating lingering o (keeps_lookUp lingering lawful o name)).bind fun v =>
    (keeps_rootOperand lingering v).bind fun _ => Preserves.pure _

/-! ### Writing and deleting -/

omit lingering in
theorem keeps_setByCallbacks (o : Handle) (name : Text) (v : Value) (ds : List Descriptor) :
    Preserves J (View.setByCallbacks host o name v ds) := by
  induction ds with
  | nil => exact Preserves.pure _
  | cons d ds ih =>
      unfold View.setByCallbacks
      cases d.callbacks .set with
      | none => exact ih
      | some f =>
          exact (lawful f _).bind fun _ =>
            Preserves.ite (fun _ => Preserves.pure _) fun _ => ih

omit lingering in
theorem keeps_setByValues (o : Handle) (name : Text) (v : Value) (ds : List Descriptor) :
    Preserves J (View.setByValues host o name v ds) := by
  induction ds with
  | nil => exact Preserves.pure _
  | cons d ds ih =>
      unfold View.setByValues
      cases d.value? name with
      | none => exact ih
      | some entry =>
          refine Preserves.ite (fun _ => Preserves.pure _) fun _ => ?_
          cases entry.setter with
          | none => exact ih
          | some f =>
              exact (lawful f _).bind fun _ =>
                Preserves.ite (fun _ => Preserves.pure _) fun _ => ih

omit lingering lawful in
theorem keeps_writeOwn (sturdy : Sturdy host J) (o : Handle) (p : Property) :
    Preserves J (View.writeOwn host o p) :=
  (keeps_putOwn sturdy o p).bind fun _ => Preserves.pure _

theorem keeps_write {o : Handle} {p : Property} (own : Preserves J (View.writeOwn host o p)) :
    Preserves J (View.write host o p) := by
  refine (keeps_reading _).bind fun c => ?_
  cases c with
  | none => exact own
  | some c =>
      have byClass : Preserves J (View.setByClass host o p.name p.value c) := by
        refine (keeps_setByCallbacks lawful o p.name p.value c.chain).bind fun _ => ?_
        refine Preserves.ite (fun _ => Preserves.pure _) fun _ => ?_
        exact (keeps_setByValues lawful o p.name p.value c.chain).bind fun _ =>
          Preserves.ite (fun _ => Preserves.pure _) fun _ => Preserves.pure _
      exact (keeps_holding lingering.toTender _ byClass).bind fun _ =>
        Preserves.ite (fun _ => Preserves.pure _) fun _ => own

theorem keeps_setProperty {o : Handle} {name : Text} {v : Value} {attributes : Attributes}
    (own : Preserves J (View.writeOwn host o ⟨name, v, attributes⟩)) :
    Preserves J (View.setProperty host o name v attributes) :=
  keeps_operating lingering o <| (keeps_rootOperand lingering v).bind fun _ =>
    keeps_write lingering lawful own

omit lingering in
theorem keeps_deleteByCallbacks (o : Handle) (name : Text) (ds : List Descriptor) :
    Preserves J (View.deleteByCallbacks host o name ds) := by
  induction ds with
  | nil => exact Preserves.pure _
  | cons d ds ih =>
      unfold View.deleteByCallbacks
      cases d.callbacks .delete with
      | none => exact ih
      | some f =>
          exact (lawful f _).bind fun _ =>
            Preserves.ite (fun _ => Preserves.pure _) fun _ => ih

section Deleting

variable {o : Handle} {name : Text}

omit lingering in
theorem keeps_deleteThrough
    (own : Preserves J (Action.editing (Heap.deleteOwn o name) : Action σ Bool))
    (chain : List Descriptor) : Preserves J (View.deleteThrough host o name chain) := by
  refine (keeps_reading _).bind fun _ => ?_
  refine Preserves.ite (fun _ => Preserves.pure _) fun _ => ?_
  refine (keeps_deleteByCallbacks lawful o name chain).bind fun _ => ?_
  exact Preserves.ite (fun _ => Preserves.pure _) fun _ => own

theorem keeps_deleteAt
    (own : Preserves J (Action.editing (Heap.deleteOwn o name) : Action σ Bool)) :
    Preserves J (View.deleteAt host o name) := by
  refine (keeps_reading _).bind fun c => ?_
  cases c with
  | none => exact keeps_deleteThrough lawful own []
  | some c =>
      refine Preserves.ite (fun _ => Preserves.pure _) fun _ => ?_
      exact keeps_holding lingering.toTender _ (keeps_deleteThrough lawful own c.chain)

theorem keeps_deleteProperty
    (own : Preserves J (Action.editing (Heap.deleteOwn o name) : Action σ Bool)) :
    Preserves J (View.deleteProperty host o name) :=
  keeps_operating lingering o (keeps_deleteAt lingering lawful own)

end Deleting

/-! ### Enumerating -/

omit lingering in
theorem keeps_namesByCallbacks (o : Handle) (ds : List Descriptor) (listed : List Text) :
    Preserves J (View.namesByCallbacks host o ds listed) := by
  induction ds generalizing listed with
  | nil => exact Preserves.pure _
  | cons d ds ih =>
      unfold View.namesByCallbacks
      cases d.callbacks .names with
      | none => exact ih _
      | some f => exact (lawful f _).bind fun _ => ih _

theorem keeps_namesAt (listed : List Text) (o : Handle) :
    Preserves J (View.namesAt host listed o) := by
  have own : ∀ listed : List Text, Preserves J
      (do return listed ++ (← Action.reading fun h => h.ownNames o) :
        Action σ (List Text)) :=
    fun listed => (keeps_reading _).bind fun _ => Preserves.pure _
  refine (keeps_reading _).bind fun c => ?_
  cases c with
  | none => exact own listed
  | some c =>
      have byClass : Preserves J (View.namesByClass host o c listed) :=
        (keeps_namesByCallbacks lawful o c.chain listed).bind fun _ => Preserves.pure _
      exact (keeps_holding lingering.toTender _ byClass).bind own

theorem keeps_namesOnChain (o : Handle) : Preserves J (View.namesOnChain host o) := by
  have visit : ∀ (listed : List Text) (p : Handle), Preserves J
      (do return .inr (← View.namesAt host listed p) : Action σ (Empty ⊕ List Text)) :=
    fun listed p => (keeps_namesAt lingering lawful listed p).bind fun _ => Preserves.pure _
  refine (keeps_walkFrom visit [] (some o)).bind fun out => ?_
  cases out with
  | inl a => exact a.elim
  | inr names => exact Preserves.pure _

theorem keeps_propertyNames (o : Handle) : Preserves J (View.propertyNames host o) :=
  keeps_operating lingering o (keeps_namesOnChain lingering lawful o)

/-! ### Calling -/

omit lawful in
theorem keeps_rootAll (vs : List Value) :
    Preserves J (View.rootAll vs : Action σ Unit) := by
  induction vs with
  | nil => exact Preserves.pure _
  | cons v vs ih => exact (keeps_rootOperand lingering v).bind fun _ => ih

omit lawful in
theorem keeps_byClass (o : Handle) {act : Option Class → Action σ α}
    (keep : ∀ c, Preserves J (act c)) : Preserves J (View.byClass o act) :=
  (keeps_reading _).bind fun c => keeps_holding lingering.toTender _ (keep c)

omit lingering in
theorem keeps_callResolved (f : Handle) (this : Value) (args : List Value)
    (c : Option Class) : Preserves J (View.callResolved host f this args c) := by
  unfold View.callResolved
  cases View.classCallback? c .call with
  | some g => exact lawful g _
  | none =>
      refine Preserves.bind (keeps_reading _) fun b => ?_
      cases b with
      | function _ g => exact lawful g _
      | ordinary | constructor => exact Preserves.throw _

theorem keeps_call (f : Handle) (this : Value) (args : List Value) :
    Preserves J (View.call host f this args) := by
  refine Preserves.bind (keeps_operating lingering f ?_) fun v =>
    (keeps_rootOperand lingering v).bind fun _ => Preserves.pure _
  exact (keeps_rootOperand lingering this).bind fun _ =>
    (keeps_rootAll lingering args).bind fun _ =>
      keeps_byClass lingering f (keeps_callResolved lawful f this args)

theorem keeps_constructResolved (f : Handle) (args : List Value) (c : Option Class) :
    Preserves J (View.constructResolved host f args c) := by
  unfold View.constructResolved
  cases View.classCallback? c .construct with
  | some g => exact lawful g _
  | none =>
      refine Preserves.bind (keeps_reading _) fun b => ?_
      rcases b with _ | _ | ⟨made, _ | g⟩
      · exact Preserves.throw _
      · exact Preserves.throw _
      · exact keeps_holding lingering.toTender _ (keeps_makeObject lingering lawful made none)
      · exact keeps_holding lingering.toTender _ (lawful g _)

theorem keeps_construct (f : Handle) (args : List Value) :
    Preserves J (View.construct host f args) := by
  refine Preserves.bind (keeps_operating lingering f ?_) fun v =>
    (keeps_rootOperand lingering _).bind fun _ => Preserves.pure _
  exact (keeps_rootAll lingering args).bind fun _ =>
    keeps_byClass lingering f (keeps_constructResolved lingering lawful f args)

omit lingering lawful in
theorem keeps_hasPrototype (proto o : Handle) :
    Preserves J (View.hasPrototype proto o : Action σ Bool) := by
  refine Preserves.bind (keeps_reading _) fun first => Preserves.bind ?_ fun _ =>
    Preserves.pure _
  exact keeps_walkFrom (fun _ _ => Preserves.pure _) _ _

theorem keeps_isConstructed (f : Handle) (v : Value) :
    Preserves J (View.isConstructed host f v) := by
  refine Preserves.bind (keeps_reading _) fun b => ?_
  split
  · refine (keeps_getProperty lingering lawful f _).bind fun v => ?_
    split
    · exact keeps_hasPrototype _ _
    · exact Preserves.throw _
  · exact Preserves.pure _

theorem keeps_hasInstanceResolved (f : Handle) (v : Value) (c : Option Class) :
    Preserves J (View.hasInstanceResolved host f v c) := by
  unfold View.hasInstanceResolved
  cases View.classCallback? c .hasInstance with
  | some g => exact lawful g _
  | none => exact keeps_isConstructed lingering lawful f v

theorem keeps_hasInstance (f : Handle) (v : Value) :
    Preserves J (View.hasInstance host f v) :=
  keeps_operating lingering f <| (keeps_rootOperand lingering v).bind fun _ =>
    keeps_byClass lingering f (keeps_hasInstanceResolved lingering lawful f v)

/-! ### Converting -/

omit lingering in
theorem keeps_convertByClass (o : Handle) (hint : Kind) (c : Option Class) :
    Preserves J (View.convertByClass host o hint c) := by
  unfold View.convertByClass
  cases View.classCallback? c .convert with
  | some f => exact (lawful f _).bind fun _ => Preserves.pure _
  | none => exact Preserves.pure _

theorem keeps_convertHinted (o : Handle) (hint : Kind) :
    Preserves J (View.convertHinted host o hint) := by
  have asked : Preserves J (View.byClass o (View.convertByClass host o hint)) :=
    keeps_byClass lingering o (keeps_convertByClass lawful o hint)
  cases hint with
  | number | string => exact asked
  | boolean | undefined | null | object => exact Preserves.pure _

theorem keeps_convert (o : Handle) (hint : Kind) :
    Preserves J (View.convert host o hint) :=
  (keeps_operating lingering o (keeps_convertHinted lingering lawful o hint)).bind fun v =>
    (keeps_rootOperand lingering v).bind fun _ => Preserves.pure _

theorem keeps_toNumber (v : Value) : Preserves J (View.toNumber host v) := by
  unfold View.toNumber
  split
  · exact (keeps_inScope lingering (keeps_convert lingering lawful _ _)).bind fun _ =>
      Preserves.pure _
  · exact Preserves.pure _

theorem keeps_toText (v : Value) : Preserves J (View.toText host v) := by
  unfold View.toText
  split
  · refine (keeps_inScope lingering (keeps_convert lingering lawful _ _)).bind fun w => ?_
    split
    · exact (keeps_reading _).bind fun _ => Preserves.pure _
    · exact Preserves.pure _
  · exact Preserves.pure _

/-! ### Properties named by values -/

theorem keeps_hasKeyed (o : Handle) (key : Value) :
    Preserves J (View.hasKeyed host o key) :=
  (keeps_toText lingering lawful key).bind fun _ => keeps_hasProperty lingering lawful o _

theorem keeps_getKeyed (o : Handle) (key : Value) :
    Preserves J (View.getKeyed host o key) :=
  (keeps_toText lingering lawful key).bind fun _ => keeps_getProperty lingering lawful o _

theorem keeps_setKeyed {o : Handle} {v : Value} {attributes : Attributes} (key : Value)
    (own : ∀ name, Preserves J (View.writeOwn host o ⟨name, v, attributes⟩)) :
    Preserves J (View.setKeyed host o key v attributes) := by
  refine Preserves.bind (keeps_inScope lingering ?_) fun name =>
    keeps_setProperty lingering lawful (own name)
  exact (keeps_rootOperand lingering v).bind fun _ => keeps_toText lingering lawful key

theorem keeps_deleteKeyed {o : Handle} (key : Value)
    (own : ∀ name, Preserves J (Action.editing (Heap.deleteOwn o name) : Action σ Bool)) :
    Preserves J (View.deleteKeyed host o key) :=
  (keeps_toText lingering lawful key).bind fun name =>
    keeps_deleteProperty lingering lawful (own name)

end HostObjects
