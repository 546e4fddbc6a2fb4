import HostObjects.Proofs.View.Consult
import HostObjects.Proofs.View.Existence

/-!
# The order of look-ups

A look-up goes through the objects of a prototype chain and asks the sources of each, until one
answers or fails (`Searched`).  The sources at an object are a list that its class and its own
properties give: `Row.valueSources` for a look-up of a value and `Row.existenceSources` for a
test for existence.

The callbacks among the sources may keep books of the calls, answer as they like and fail; all
that they are to leave alone is the chain (`Host.LeavesChain`).  Then both look-ups are searches
of the chain as it was when they started, and what ends the search is the result
(`look_ups_search_chain`).
-/

namespace HostObjects

open Heap

variable {σ α β : Type} {host : Host σ} {s s' t : Session σ} {o p : Handle} {chain : List Handle}
  {name : Text} {start : Heap}

/-! ### Searches of a chain -/

section Searches

variable [Inhabited β]

/-- Objects are searched one after the other, no more than the budget allows, and the class of
each is held while its sources are asked. -/
inductive Searched (sources : Row → List (Action σ β)) :
    Nat → List Row → Session σ → Except Fault β → Session σ → Prop
  | exhausted (budget : Nat) (s : Session σ) : Searched sources budget [] s (.ok default) s
  | tooDeep (r : Row) (rs : List Row) (s : Session σ) :
      Searched sources 0 (r :: rs) s (.error .prototypeChainTooDeep) s
  | answers {budget : Nat} {r : Row} {rs : List Row} {s t : Session σ} {b : β}
      (consulted : Consulted (sources r) (s.hold r.ofClass.toList) (.ok b) t)
      (something : b ≠ default) :
      Searched sources (budget + 1) (r :: rs) s (.ok b) (t.release s.holding)
  | fails {budget : Nat} {r : Row} {rs : List Row} {s t : Session σ} {e : Fault}
      (consulted : Consulted (sources r) (s.hold r.ofClass.toList) (.error e) t) :
      Searched sources (budget + 1) (r :: rs) s (.error e) (t.release s.holding)
  | passes {budget : Nat} {r : Row} {rs : List Row} {s t s' : Session σ} {found : Except Fault β}
      (consulted : Consulted (sources r) (s.hold r.ofClass.toList) (.ok default) t)
      (rest : Searched sources budget rs (t.release s.holding) found s') :
      Searched sources (budget + 1) (r :: rs) s found s'

/-- Looking at an object asks its sources in order, and the class of the object is held
meanwhile. -/
def LooksAt (look : Handle → Action σ β) (sources : Row → List (Action σ β)) : Prop :=
  ∀ (r : Row) (s : Session σ), s.heap.classOf r.object = .ok r.ofClass →
    ∃ t, Consulted (sources r) (s.hold r.ofClass.toList) (look r.object s).1 t ∧
      (look r.object s).2 = t.release s.holding

/-- The sources of the objects on the chain leave the chain as it is, unless they answer or
fail. -/
def LeftBySources (start : Heap) (o : Handle) (chain : List Handle)
    (sources : Row → List (Action σ β)) : Prop :=
  ∀ p ∈ chain, ∀ act ∈ sources (start.row p), ∀ s t, act s = (.ok default, t) →
    start.SameRows o chain s.heap → start.SameRows o chain t.heap

/-- The visits of a search: without an answer the search goes on. -/
def visitLook (look : Handle → Action σ β) (close : β → α ⊕ Unit) (_ : Unit) (p : Handle) :
    Action σ (α ⊕ Unit) :=
  close <$> look p

variable {look : Handle → Action σ β} {sources : Row → List (Action σ β)} {close : β → α ⊕ Unit}

/-- A look at an object of the chain is a search of its row. -/
theorem consulted_look (looks : LooksAt look sources) (mem : p ∈ chain)
    (same : start.SameRows o chain s.heap) :
    ∃ t, Consulted (sources (start.row p)) (s.hold (start.row p).ofClass.toList)
        (look p s).1 t ∧ (look p s).2 = t.release s.holding := by
  have ofClass := classOf_row (same.linked.isValid p mem)
  rw [same.same p mem] at ofClass
  have asked := looks (start.row p) s
  rw [start.object_row] at asked
  exact asked ofClass

theorem kept_visitLook (looks : LooksAt look sources) (left : LeftBySources start o chain sources)
    (goesOn : ∀ b, close b = .inr () ↔ b = default) :
    KeptByVisits (fun s => start.SameRows o chain s.heap) (visitLook look close) chain := by
  intro p mem _ s same _ s' visited
  obtain ⟨t, consulted, state⟩ := consulted_look looks mem same
  rw [visitLook, map_apply] at visited
  rcases run : look p s with ⟨e | b, s₁⟩ <;> rw [run] at visited consulted state <;> dsimp only at *
  · cases visited
  · obtain ⟨result, rfl⟩ := Prod.mk.inj visited
    obtain rfl := (goesOn b).mp (Except.ok.inj result)
    rw [state]
    exact consulted.keeps (J := fun s => start.SameRows o chain s.heap) (left p mem) same

/-- **The objects of a chain are searched in order.** -/
theorem searched_visitAll (looks : LooksAt look sources)
    (left : LeftBySources start o chain sources) (goesOn : ∀ b, close b = .inr () ↔ b = default)
    {ps : List Handle} (part : ∀ p ∈ ps, p ∈ chain) (budget : Nat)
    (same : start.SameRows o chain s.heap) :
    ∃ found t, Searched sources budget (ps.map start.row) s found t ∧
      visitAll (visitLook look close) budget () ps s = (found.map close, t) := by
  induction ps generalizing budget s with
  | nil =>
      refine ⟨.ok default, s, .exhausted budget s, ?_⟩
      rw [Except.map, (goesOn default).mpr rfl]
      cases budget <;> rfl
  | cons p ps ih =>
      cases budget with
      | zero => exact ⟨_, s, .tooDeep _ _ s, rfl⟩
      | succ budget =>
          have mem := part p List.mem_cons_self
          obtain ⟨t, consulted, state⟩ := consulted_look looks mem same
          rw [visitAll, bind_apply, visitLook, map_apply]
          rcases run : look p s with ⟨e | b, s'⟩ <;> rw [run] at consulted state <;>
            dsimp only at consulted state ⊢ <;> subst state
          · exact ⟨.error e, _, .fails consulted, rfl⟩
          cases closed : close b with
          | inl a =>
              refine ⟨.ok b, _, .answers consulted fun nothing => ?_, ?_⟩
              · rw [(goesOn b).mpr nothing] at closed
                cases closed
              · rw [Except.map, closed]
                rfl
          | inr _ =>
              obtain rfl := (goesOn b).mp closed
              have kept : start.SameRows o chain t.heap :=
                consulted.keeps (J := fun s => start.SameRows o chain s.heap) (left p mem) same
              obtain ⟨found, s', searched, rest⟩ :=
                ih (fun q mem => part q (List.mem_cons_of_mem _ mem)) budget
                  (s := t.release s.holding) kept
              exact ⟨found, s', .passes consulted searched, rest⟩

/-- A walk with the full budget visits the chain. -/
theorem walkFrom_look (looks : LooksAt look sources) (left : LeftBySources start o chain sources)
    (goesOn : ∀ b, close b = .inr () ↔ b = default) (same : start.SameRows o chain s.heap) :
    walkFrom (visitLook look close) () (some o) s =
      visitAll (visitLook look close) maxPrototypeChain () chain s :=
  walkFrom_of_chain (fun _ same => same.linked) (kept_visitLook looks left goesOn) () same

end Searches

/-! ### What look-ups ask at an object -/

namespace Row

/-- What a look-up of a value asks at an object: the `get` callback of each class, the getter of
the first static value of the name of each class, the first function that is found on the
object, and its own property. -/
def valueSources (host : Host σ) (name : Text) (r : Row) : List (Action σ (Option Value)) :=
  r.classes.map (fun d => host.poll (.get r.object name) (d.callbacks .get)) ++
    (r.classes.map (fun d =>
        host.poll (.get r.object name) ((d.value? name).bind StaticValue.getter)) ++
      ((r.functionClasses.findSome? fun d => d.function? name).toList.map
          (fun entry => some <$> View.instanceFunction host r.object entry name) ++
        [Action.reading fun h => h.getOwn r.object name]))

/-- What a test for existence asks at an object: the `has` callback of each class or else its
`get` callback, whether a class has a static value, whether one has a function that is found on
the object, and whether the property is its own. -/
def existenceSources (host : Host σ) (name : Text) (r : Row) : List (Action σ Bool) :=
  r.classes.map (host.affirms r.object name) ++
    [pure (r.classes.any fun d => (d.value? name).isSome),
      pure (r.functionClasses.any fun d => (d.function? name).isSome),
      Action.reading fun h => h.hasOwn r.object name]

end Row

theorem consults_getByCallbacks (ds : List Descriptor) :
    (View.getByCallbacks host p name ds).Consults
      (ds.map fun d => host.poll (.get p name) (d.callbacks .get)) := by
  induction ds with
  | nil => exact .nil
  | cons d ds ih =>
      unfold View.getByCallbacks
      rw [List.map_cons]
      cases d.callbacks .get with
      | none => exact ih.skip
      | some f => exact (Action.Consults.single _).bind_option (fun _ => rfl) ih

theorem consults_getByGetters (ds : List Descriptor) :
    (View.getByGetters host p name ds).Consults
      (ds.map fun d => host.poll (.get p name) ((d.value? name).bind StaticValue.getter)) := by
  induction ds with
  | nil => exact .nil
  | cons d ds ih =>
      unfold View.getByGetters
      rw [List.map_cons]
      cases (d.value? name).bind StaticValue.getter with
      | none => exact ih.skip
      | some f => exact (Action.Consults.single _).bind_option (fun _ => rfl) ih

theorem consults_hasByCallbacks (ds : List Descriptor) :
    (View.hasByCallbacks host p name ds).Consults (ds.map (host.affirms p name)) := by
  induction ds with
  | nil => exact .nil
  | cons d ds ih =>
      rw [hasByCallbacks_cons]
      exact (Action.Consults.single _).bind_bool rfl ih

/-- The function that is found on an object is given or cannot be made; what comes after it is
not asked. -/
theorem consults_instanceFunction (entry : StaticFunction) (more : List (Action σ (Option Value))) :
    (some <$> View.instanceFunction host p entry name).Consults
      ((some <$> View.instanceFunction host p entry name) :: more) := by
  intro s
  refine (Action.Consults.single _ s).append_of_ended fun nothing => ?_
  rw [map_apply] at nothing
  rcases run : View.instanceFunction host p entry name s with ⟨e | v, t⟩ <;>
    rw [run] at nothing <;> cases nothing

theorem consults_getByClass (c : Class) (properties : List Property) :
    (View.getByClass host p name c).Consults
      (Row.valueSources host name ⟨p, some c, properties⟩) := by
  have functions : Row.functionClasses ⟨p, some c, properties⟩ = c.onInstance := rfl
  rw [Row.valueSources, functions]
  refine (consults_getByCallbacks c.chain).bind_option (fun _ => rfl)
    ((consults_getByGetters c.chain).bind_option (fun _ => rfl) ?_)
  dsimp only
  cases c.onInstance.findSome? fun d => d.function? name with
  | none => exact .single _
  | some entry => exact consults_instanceFunction entry _

theorem consults_hasByClass (c : Class) :
    (View.hasByClass host p name c).Consults
      (c.chain.map (host.affirms p name) ++
        [pure (c.hasStaticValue name), pure (c.hasInstanceFunction name)]) := by
  refine (consults_hasByCallbacks c.chain).bind_bool rfl ?_
  show (pure (c.hasStaticValue name || c.hasInstanceFunction name) : Action σ Bool).Consults _
  cases value : c.hasStaticValue name with
  | false => exact (Action.Consults.single _).skip
  | true => exact fun s => .answers rfl (by simp)

theorem looksAt_getAt (host : Host σ) (name : Text) :
    LooksAt (fun p => View.getAt host p name) (Row.valueSources host name) := by
  rintro ⟨p, c?, properties⟩ s ofClass
  dsimp only at ofClass ⊢
  unfold View.getAt
  rw [bind_apply]
  simp only [Action.reading, ofClass]
  cases c? with
  | none => exact ⟨_, Action.Consults.single _ s, rfl⟩
  | some c => exact ⟨_, consults_getByClass c properties (s.hold [c]), rfl⟩

theorem looksAt_hasAt (host : Host σ) (name : Text) :
    LooksAt (fun p => View.hasAt host p name) (Row.existenceSources host name) := by
  rintro ⟨p, c?, properties⟩ s ofClass
  dsimp only at ofClass ⊢
  unfold View.hasAt
  rw [bind_apply]
  simp only [Action.reading, ofClass]
  cases c? with
  | none => exact ⟨_, (Action.Consults.single _).skip.skip s, rfl⟩
  | some c =>
      have own := Action.Consults.single (Action.reading fun h => h.hasOwn p name : Action σ Bool)
      have consulted : Consulted _ _ (View.hasByClass host p name c (s.hold [c])).1 _ :=
        consults_hasByClass c (s.hold [c])
      have split : Row.existenceSources host name ⟨p, some c, properties⟩ =
          (c.chain.map (host.affirms p name) ++
            [pure (c.hasStaticValue name), pure (c.hasInstanceFunction name)]) ++
          [Action.reading fun h => h.hasOwn p name] := by
        rw [List.append_assoc]
        rfl
      rw [split]
      dsimp only
      rw [bind_apply, holding_apply]
      rcases run : View.hasByClass host p name c (s.hold [c]) with ⟨e | _ | _, t⟩ <;>
        rw [run] at consulted
      · exact ⟨t, consulted.append_of_ended (fun same => by cases same), rfl⟩
      · -- The own property is looked at after the class is let go of.
        exact ⟨t, consulted.append (own t), rfl⟩
      · exact ⟨t, consulted.append_of_ended (by simp), rfl⟩

/-! ### The order of look-ups -/

/-- The callbacks and getters that a look-up may ask on the chain leave it as it is: its links,
and the classes and own properties of its objects. -/
structure Host.LeavesChain (host : Host σ) (start : Heap) (o : Handle) (chain : List Handle)
    (name : Text) : Prop where
  has : ∀ p ∈ chain, ∀ d ∈ (start.row p).classes, ∀ f, d.callbacks .has = some f →
    Preserves (fun s => start.SameRows o chain s.heap) (host.answer f (.has p name))
  get : ∀ p ∈ chain, ∀ d ∈ (start.row p).classes, ∀ f,
    d.callbacks .get = some f ∨ (d.value? name).bind StaticValue.getter = some f →
    Preserves (fun s => start.SameRows o chain s.heap) (host.answer f (.get p name))

theorem left_valueSources (leaves : host.LeavesChain start o chain name) :
    LeftBySources start o chain (Row.valueSources host name) := by
  intro p mem act there s t pass same
  have polled : ∀ (d : Descriptor), d ∈ (start.row p).classes → ∀ f?,
      (∀ f, f? = some f →
        d.callbacks .get = some f ∨ (d.value? name).bind StaticValue.getter = some f) →
      host.poll (.get p name) f? s = (.ok default, t) → start.SameRows o chain t.heap := by
    intro d inClass f? named run
    cases f? with
    | none =>
        cases run
        exact same
    | some f =>
        exact (leaves.get p mem d inClass f (named f rfl) s same).1 default t run
  simp only [Row.valueSources, List.mem_append, List.mem_map, List.mem_singleton,
    start.object_row] at there
  rcases there with ⟨d, inClass, rfl⟩ | ⟨d, inClass, rfl⟩ | ⟨entry, -, rfl⟩ | rfl
  · exact polled d inClass _ (fun f => Or.inl) pass
  · exact polled d inClass _ (fun f => Or.inr) pass
  · rw [map_apply] at pass
    rcases run : View.instanceFunction host p entry name s with ⟨e | v, t⟩ <;>
      rw [run] at pass <;> cases pass
  · exact (Prod.mk.inj pass).2 ▸ same

theorem left_existenceSources (leaves : host.LeavesChain start o chain name) :
    LeftBySources start o chain (Row.existenceSources host name) := by
  intro p mem act there s t pass same
  simp only [Row.existenceSources, List.mem_append, List.mem_map, List.mem_cons,
    List.not_mem_nil, or_false, start.object_row] at there
  rcases there with ⟨d, inClass, rfl⟩ | rfl | rfl | rfl
  · have kept : Preserves (fun s => start.SameRows o chain s.heap) (host.affirms p name d) := by
      unfold Host.affirms
      cases has : d.callbacks .has with
      | some f => exact leaves.has p mem d inClass f has
      | none =>
          cases get : d.callbacks .get with
          | some f => exact (leaves.get p mem d inClass f (Or.inl get)).map _
          | none => exact Preserves.pure _
    exact (kept s same).1 default t pass
  all_goals exact (Prod.mk.inj pass).2 ▸ same

/-- A value ends a look-up. -/
def closeValue (v : Option Value) : Value ⊕ Unit := v.elim (.inr ()) Sum.inl

/-- A test for existence ends where it succeeds. -/
def closeExistence (found : Bool) : Unit ⊕ Unit := if found then .inl () else .inr ()

theorem closeValue_eq_inr_iff (v : Option Value) : closeValue v = .inr () ↔ v = default := by
  cases v with
  | none => exact iff_of_true rfl rfl
  | some v => exact iff_of_false nofun nofun

theorem closeExistence_eq_inr_iff (found : Bool) :
    closeExistence found = .inr () ↔ found = default := by
  cases found <;> simp [closeExistence]

theorem visitValue_eq (host : Host σ) (name : Text) :
    visitValue host name = visitLook (fun p => View.getAt host p name) closeValue := by
  funext _ p s
  rw [visitValue, visitLook, bind_apply, map_apply]
  rcases View.getAt host p name s with ⟨e | v | v, t⟩ <;> rfl

theorem visitHas_eq (host : Host σ) (name : Text) :
    visitHas host name = visitLook (fun p => View.hasAt host p name) closeExistence := by
  funext _ p s
  rw [visitHas, visitLook, bind_apply, map_apply]
  rcases View.hasAt host p name s with ⟨e | _ | _, t⟩ <;> rfl

theorem Heap.withResult_undefined (h : Heap) : h.withResult (some .undefined) = h := by
  show { h with stack := h.stack ++ #[] } = h
  rw [Array.append_empty]

/-- A look-up visits the chain, and roots a value that it finds. -/
theorem getProperty_of_chain (ok : Intact s.heap) (walk : PrototypeChain s.heap o chain)
    (leaves : host.LeavesChain s.heap o chain name) :
    View.getProperty host o name s =
      match visitAll (visitValue host name) maxPrototypeChain () chain (s.on o) with
      | (.ok v, t) => (.ok (v.elim id fun _ => .undefined),
          t.withHeap ((t.heap.cutStack s.heap.stack.size).withResult v.getLeft?))
      | (.error e, t) => (.error e, t.withHeap (t.heap.cutStack s.heap.stack.size)) := by
  have walked : walkFrom (visitValue host name) () (some o) (s.on o) =
      visitAll (visitValue host name) maxPrototypeChain () chain (s.on o) := by
    rw [visitValue_eq]
    exact walkFrom_look (looksAt_getAt host name) (left_valueSources leaves) closeValue_eq_inr_iff
      (sameRows_rootAll ok walk)
  have form : View.getProperty host o name = _ :=
    (Invocation.get o name).perform_eq_withOperands rfl
  have looked : Invocation.body host (.get o name)
      (s.withHeap (s.heap.rootAll (Invocation.get o name).operands)) = _ :=
    (lookUp_apply host o name (s.on o)).trans (by rw [walked])
  rw [form, withOperands_apply walk.isValid_start, looked]
  rcases visitAll (visitValue host name) maxPrototypeChain () chain (s.on o) with
    ⟨e | v | ⟨⟩, t⟩
  · rfl
  · rfl
  · exact congrArg (fun h => (_, t.withHeap h)) (Heap.withResult_undefined _)

/-- A test for existence visits the chain. -/
theorem hasProperty_of_chain (ok : Intact s.heap) (walk : PrototypeChain s.heap o chain)
    (leaves : host.LeavesChain s.heap o chain name) :
    View.hasProperty host o name s =
      match visitAll (visitHas host name) maxPrototypeChain () chain (s.on o) with
      | (found, t) =>
        (found.map Sum.isLeft, t.withHeap (t.heap.cutStack s.heap.stack.size)) := by
  have walked : walkFrom (visitHas host name) () (some o) (s.on o) =
      visitAll (visitHas host name) maxPrototypeChain () chain (s.on o) := by
    rw [visitHas_eq]
    exact walkFrom_look (looksAt_hasAt host name) (left_existenceSources leaves)
      closeExistence_eq_inr_iff (sameRows_rootAll ok walk)
  have form : View.hasProperty host o name = _ :=
    (Invocation.has o name).perform_eq_withOperands rfl
  have looked : Invocation.body host (.has o name)
      (s.withHeap (s.heap.rootAll (Invocation.has o name).operands)) =
        (walkFrom (visitHas host name) () (some o) >>= fun found => pure found.isLeft) (s.on o) :=
    rfl
  rw [form, withOperands_apply walk.isValid_start, looked, bind_apply, walked]
  rcases visitAll (visitHas host name) maxPrototypeChain () chain (s.on o) with ⟨_ | _, t⟩ <;> rfl

/-- **A look-up is a search of the chain as it was when it started**, and what ends the search
is its result: what the first source answers, the fault of the first source that fails, or
where no source answers `undefined` and `false`. -/
theorem look_ups_search_chain (ok : Intact s.heap) (walk : PrototypeChain s.heap o chain)
    (leaves : host.LeavesChain s.heap o chain name) :
    (∃ found t,
      Searched (Row.valueSources host name) maxPrototypeChain (chain.map s.heap.row) (s.on o)
        found t ∧
      View.getProperty host o name s =
        match found with
        | .ok v => (.ok (v.getD .undefined),
            t.withHeap ((t.heap.cutStack s.heap.stack.size).withResult v))
        | .error e => (.error e, t.withHeap (t.heap.cutStack s.heap.stack.size))) ∧
    ∃ found t,
      Searched (Row.existenceSources host name) maxPrototypeChain (chain.map s.heap.row) (s.on o)
        found t ∧
      View.hasProperty host o name s =
        (found, t.withHeap (t.heap.cutStack s.heap.stack.size)) := by
  have same : s.heap.SameRows o chain (s.on o).heap := sameRows_rootAll ok walk
  constructor
  · obtain ⟨found, t, searched, run⟩ := searched_visitAll (looksAt_getAt host name)
      (left_valueSources leaves) closeValue_eq_inr_iff (fun _ mem => mem) maxPrototypeChain same
    refine ⟨found, t, searched, ?_⟩
    rw [getProperty_of_chain ok walk leaves, visitValue_eq, run]
    rcases found with e | v | v <;> rfl
  · obtain ⟨found, t, searched, run⟩ := searched_visitAll (looksAt_hasAt host name)
      (left_existenceSources leaves) closeExistence_eq_inr_iff (fun _ mem => mem)
      maxPrototypeChain same
    refine ⟨found, t, searched, ?_⟩
    rw [hasProperty_of_chain ok walk leaves, visitHas_eq, run]
    rcases found with e | _ | _ <;> rfl

/-- A class without an automatic prototype, with a `get` callback, a value of which the name is
taken twice, and a function; its parent has both callbacks. -/
def askedClass : Class where
  own :=
    { id := ⟨1⟩, version := 0, name := Text.ofString "Asked", automatic := false
      values := [⟨Text.ofString "v", .none, some ⟨9⟩, none⟩,
        ⟨Text.ofString "v", .none, some ⟨10⟩, none⟩]
      functions := [⟨Text.ofString "v", .none, ⟨0⟩⟩]
      callbacks := fun op => if op = .get then some ⟨7⟩ else none }
  ancestors :=
    [{ id := ⟨0⟩, version := 0, name := Text.ofString "Base", automatic := true
       values := [], functions := []
       callbacks := fun op =>
        if op = .get then some ⟨8⟩ else if op = .has then some ⟨6⟩ else none }]

/-- A session with an instance. -/
def askedSession : Session (List Nat) :=
  ⟨after (new ⟨0⟩ .standard .synchronous)
    (turnsOf [.allocInstance askedClass none ⟨⟨0⟩, 0, 0⟩]), [], []⟩

/-- There a look-up of the value ends at the callback of the parent, and a test for existence asks
the `get` callback of the class and fails with the `has` callback of the parent. -/
theorem look_ups_search_chain_asked :
    ((∃ found t,
      Searched (Row.valueSources recordingHost (Text.ofString "v")) maxPrototypeChain
        ([⟨⟨0⟩, 2, 0⟩, ⟨⟨0⟩, 0, 0⟩].map askedSession.heap.row) (askedSession.on ⟨⟨0⟩, 2, 0⟩)
        found t ∧
      View.getProperty recordingHost ⟨⟨0⟩, 2, 0⟩ (Text.ofString "v") askedSession =
        match found with
        | .ok v => (.ok (v.getD .undefined),
            t.withHeap ((t.heap.cutStack askedSession.heap.stack.size).withResult v))
        | .error e => (.error e, t.withHeap (t.heap.cutStack askedSession.heap.stack.size))) ∧
    ∃ found t,
      Searched (Row.existenceSources recordingHost (Text.ofString "v")) maxPrototypeChain
        ([⟨⟨0⟩, 2, 0⟩, ⟨⟨0⟩, 0, 0⟩].map askedSession.heap.row) (askedSession.on ⟨⟨0⟩, 2, 0⟩)
        found t ∧
      View.hasProperty recordingHost ⟨⟨0⟩, 2, 0⟩ (Text.ofString "v") askedSession =
        (found, t.withHeap (t.heap.cutStack askedSession.heap.stack.size))) ∧
    (View.getProperty recordingHost ⟨⟨0⟩, 2, 0⟩ (Text.ofString "v") askedSession).1 =
      .ok .null ∧
    (View.getProperty recordingHost ⟨⟨0⟩, 2, 0⟩ (Text.ofString "v") askedSession).2.host =
      [8, 7] ∧
    (View.hasProperty recordingHost ⟨⟨0⟩, 2, 0⟩ (Text.ofString "v") askedSession).1 =
      .error (.thrown .null) ∧
    (View.hasProperty recordingHost ⟨⟨0⟩, 2, 0⟩ (Text.ofString "v") askedSession).2.host =
      [6, 7] := by
  have walk : PrototypeChain askedSession.heap ⟨⟨0⟩, 2, 0⟩ [⟨⟨0⟩, 2, 0⟩, ⟨⟨0⟩, 0, 0⟩] :=
    .link (by decide +kernel) (.last (by decide +kernel))
  have ok : Intact askedSession.heap := ((Reachable.new _ _ _).after _).intact
  have leaves : recordingHost.LeavesChain askedSession.heap ⟨⟨0⟩, 2, 0⟩
      [⟨⟨0⟩, 2, 0⟩, ⟨⟨0⟩, 0, 0⟩] (Text.ofString "v") :=
    ⟨fun _ _ _ _ _ _ => Preserves.of_state fun _ same => same,
      fun _ _ _ _ _ _ => Preserves.of_state fun _ same => same⟩
  refine ⟨look_ups_search_chain ok walk leaves, ?_⟩
  rw [getProperty_of_chain ok walk leaves, hasProperty_of_chain ok walk leaves]
  decide +kernel

end HostObjects
