import HostObjects.Proofs.View.Lookup
import HostObjects.Proofs.View.Present

/-!
# Accesses to silent objects

A class is silent if it has no static value and no callback for accesses to properties.
Where the objects of a prototype chain have such classes or none, accesses ask no host
function, and what they answer and change is what the faces of the chain say
(`Access.follows`): a fault other than the lack of memory is the same, an answer is the same up
to the identity of functions, and the faces after it are those after the access to the faces.

Memory can only be lacking if less is left than a function object with its name and a property
count (`accessBytes`).
-/

namespace HostObjects

open Heap

variable {σ α : Type} {host : Host σ} {s : Session σ} {S : Array Value}
  {W : List (Handle × Content)} {o p : Handle} {chain ps : List Handle} {F F' : Handle → Face}
  {name : Text} {c : Class} {ds : List Descriptor}

/-! ### Silent classes -/

/-- The class has no static value and no callback for accesses to properties. -/
structure Class.Silent (c : Class) : Prop where
  values : ∀ d ∈ c.chain, d.values = []
  callbacks : ∀ d ∈ c.chain, ∀ op ∈ [Operation.has, .get, .set, .delete, .names],
    d.callbacks op = none

theorem Class.Silent.of_idle
    (idle : ∀ d ∈ c.chain, d.values = [] ∧ d.callbacks = fun _ => none) : c.Silent where
  values d mem := (idle d mem).1
  callbacks d mem _ _ := by rw [(idle d mem).2]

theorem hasByCallbacks_of_none
    (none : ∀ d ∈ ds, d.callbacks .has = none ∧ d.callbacks .get = none) :
    View.hasByCallbacks host o name ds = pure false := by
  induction ds with
  | nil => rfl
  | cons d ds ih =>
      obtain ⟨has, get⟩ := none d List.mem_cons_self
      simp [View.hasByCallbacks, has, get, ih fun d mem => none d (List.mem_cons_of_mem _ mem)]

theorem getByCallbacks_of_none (none : ∀ d ∈ ds, d.callbacks .get = none) :
    View.getByCallbacks host o name ds = pure .none := by
  induction ds with
  | nil => rfl
  | cons d ds ih =>
      simp only [View.getByCallbacks, none d List.mem_cons_self]
      exact ih fun d mem => none d (List.mem_cons_of_mem _ mem)

theorem getByGetters_of_none (none : ∀ d ∈ ds, d.value? name = none) :
    View.getByGetters host o name ds = pure .none := by
  induction ds with
  | nil => rfl
  | cons d ds ih =>
      simp only [View.getByGetters, none d List.mem_cons_self]
      exact ih fun d mem => none d (List.mem_cons_of_mem _ mem)

theorem setByCallbacks_of_none {v : Value} (none : ∀ d ∈ ds, d.callbacks .set = none) :
    View.setByCallbacks host o name v ds = pure false := by
  induction ds with
  | nil => rfl
  | cons d ds ih =>
      simp only [View.setByCallbacks, none d List.mem_cons_self]
      exact ih fun d mem => none d (List.mem_cons_of_mem _ mem)

theorem setByValues_of_none {v : Value} (none : ∀ d ∈ ds, d.value? name = none) :
    View.setByValues host o name v ds = pure false := by
  induction ds with
  | nil => rfl
  | cons d ds ih =>
      simp only [View.setByValues, none d List.mem_cons_self]
      exact ih fun d mem => none d (List.mem_cons_of_mem _ mem)

theorem deleteByCallbacks_of_none (none : ∀ d ∈ ds, d.callbacks .delete = none) :
    View.deleteByCallbacks host o name ds = pure false := by
  induction ds with
  | nil => rfl
  | cons d ds ih =>
      simp only [View.deleteByCallbacks, none d List.mem_cons_self]
      exact ih fun d mem => none d (List.mem_cons_of_mem _ mem)

theorem namesByCallbacks_of_none {listed : List Text}
    (none : ∀ d ∈ ds, d.callbacks .names = none) :
    View.namesByCallbacks host o ds listed = pure listed := by
  induction ds with
  | nil => rfl
  | cons d ds ih =>
      simp only [View.namesByCallbacks, none d List.mem_cons_self]
      exact ih fun d mem => none d (List.mem_cons_of_mem _ mem)

/-- Where no class answers a look-up of the value, a function or the own property does. -/
theorem getByClass_of_none (callbacks : ∀ d ∈ c.chain, d.callbacks .get = none)
    (values : ∀ d ∈ c.chain, d.value? name = none) :
    View.getByClass host o name c =
      match c.onInstance.findSome? fun d => d.function? name with
      | some entry => some <$> View.instanceFunction host o entry name
      | none => Action.reading fun h => h.getOwn o name := by
  unfold View.getByClass
  rw [getByCallbacks_of_none callbacks, pure_bind]
  dsimp only
  rw [getByGetters_of_none values]
  cases c.onInstance.findSome? fun d => d.function? name <;> rfl

/-- Where no class takes a write, a read-only function ends it. -/
theorem setByClass_of_none {v : Value} (callbacks : ∀ d ∈ c.chain, d.callbacks .set = none)
    (values : ∀ d ∈ c.chain, d.value? name = none) :
    View.setByClass host o name v c = pure (View.hasReadOnlyFunction c name) := by
  simp [View.setByClass, setByCallbacks_of_none callbacks, setByValues_of_none values]

namespace Class.Silent

variable (silent : c.Silent)
include silent

theorem hasByClass : View.hasByClass host o name c = pure (c.hasInstanceFunction name) := by
  have none : c.hasStaticValue name = false := by
    refine List.any_eq_false.mpr fun d mem => ?_
    simp [Descriptor.value?, silent.values d mem]
  have asked : View.hasByCallbacks host o name c.chain = pure false :=
    hasByCallbacks_of_none fun d mem =>
      ⟨silent.callbacks d mem _ (by simp), silent.callbacks d mem _ (by simp)⟩
  simp [View.hasByClass, asked, none]

theorem value?_eq_none : ∀ d ∈ c.chain, d.value? name = none := by
  intro d mem
  rw [Descriptor.value?, silent.values d mem]
  rfl

theorem getByClass : View.getByClass host o name c =
    match c.onInstance.findSome? fun d => d.function? name with
    | some entry => some <$> View.instanceFunction host o entry name
    | none => Action.reading fun h => h.getOwn o name :=
  getByClass_of_none (fun d mem => silent.callbacks d mem _ (by simp)) silent.value?_eq_none

theorem setByClass {v : Value} :
    View.setByClass host o name v c = pure (View.hasReadOnlyFunction c name) :=
  setByClass_of_none (fun d mem => silent.callbacks d mem _ (by simp)) silent.value?_eq_none

theorem deleteThrough :
    View.deleteThrough host o name c.chain = View.deleteThrough host o name [] := by
  have asked : View.deleteByCallbacks host o name c.chain = pure false :=
    deleteByCallbacks_of_none fun d mem => silent.callbacks d mem _ (by simp)
  unfold View.deleteThrough
  rw [asked]
  rfl

theorem namesByClass {listed : List Text} :
    View.namesByClass host o c listed = pure (listed ++ c.declaredNames) := by
  have asked : View.namesByCallbacks host o c.chain listed = pure listed :=
    namesByCallbacks_of_none fun d mem => silent.callbacks d mem _ (by simp)
  unfold View.namesByClass
  rw [asked, c.staticNames_chain]
  rfl

end Class.Silent

/-! ### What is read at one object -/

theorem holding_pure (cs : List Class) (a : α) :
    Action.holding cs (pure a) = (pure a : Action σ α) := rfl

/-- The objects on the chain have silent classes or none. -/
def SilentOn (F : Handle → Face) (chain : List Handle) : Prop :=
  ∀ p ∈ chain, ∀ c, (F p).ofClass = some c → c.Silent

section Reading

variable (ok : Presents S W o chain F s.heap) (silent : SilentOn F chain) (mem : p ∈ chain)

include ok mem in
theorem classOf_of_mem : s.heap.classOf p = .ok (F p).ofClass := by
  obtain ⟨obj, found, face⟩ := ok.object_of_mem mem
  rw [Heap.classOf, found, face]
  rfl

include ok mem in
theorem hasOwn_of_mem : s.heap.hasOwn p name = .ok ((F p).own? name).isSome := by
  obtain ⟨own, read, face⟩ := ownProperty_of_mem ok mem name
  rw [Heap.hasOwn, read, face, Option.isSome_map]
  rfl

include ok mem in
theorem ownAttributes_of_mem :
    s.heap.ownAttributes p name = .ok (((F p).own? name).map Shown.attributes) := by
  obtain ⟨own, read, face⟩ := ownProperty_of_mem ok mem name
  rw [Heap.ownAttributes, read, face, Option.map_map]
  rfl

include ok mem in
theorem ownNames_of_mem : s.heap.ownNames p = .ok (F p).visible := by
  obtain ⟨obj, found, face⟩ := ok.object_of_mem mem
  rw [Heap.ownNames, found, face, Face.visible, List.filter_map, List.map_map]
  rfl

include ok silent mem

theorem hasAt_of_mem : View.hasAt host p name s = (.ok ((F p).has name), s) := by
  unfold View.hasAt
  rw [bind_apply]
  simp only [Action.reading, classOf_of_mem ok mem]
  cases ofClass : (F p).ofClass with
  | none =>
      rw [Face.has, Face.function?, ofClass]
      exact Prod.ext (hasOwn_of_mem ok mem) rfl
  | some c =>
      have function : ((F p).function? name).isSome = c.hasInstanceFunction name := by
        rw [Face.function?, ofClass, Option.bind_some, List.isSome_findSome?]
        rfl
      dsimp only
      rw [(silent p mem c ofClass).hasByClass, holding_pure, pure_bind, Face.has, function]
      cases c.hasInstanceFunction name with
      | true => rfl
      | false => exact Prod.ext (hasOwn_of_mem ok mem) rfl

theorem namesAt_of_mem (listed : List Text) :
    View.namesAt host listed p s = (.ok (listed ++ (F p).listed), s) := by
  have own : ∀ before : List Text,
      (do return before ++ (← Action.reading fun h => h.ownNames p) : Action σ (List Text)) s =
        (.ok (before ++ (F p).visible), s) := by
    intro before
    rw [bind_apply]
    simp only [Action.reading, ownNames_of_mem ok mem]
    rfl
  unfold View.namesAt
  rw [bind_apply]
  simp only [Action.reading, classOf_of_mem ok mem]
  cases ofClass : (F p).ofClass with
  | none =>
      rw [Face.listed, Face.declared, ofClass]
      exact own listed
  | some c =>
      dsimp only
      rw [(silent p mem c ofClass).namesByClass, holding_pure, pure_bind, Face.listed,
        Face.declared, ofClass, ← List.append_assoc]
      exact own _

end Reading

/-! ### What is visited -/

/-- The visits of a test for a property. -/
def visitHas (host : Host σ) (name : Text) (_ : Unit) (p : Handle) : Action σ (Unit ⊕ Unit) := do
  return if ← View.hasAt host p name then .inl () else .inr ()

theorem visitAll_visitHas (ok : Presents S W o chain F s.heap) (silent : SilentOn F chain)
    (budget : Nat) (part : ∀ p ∈ ps, p ∈ chain) :
    visitAll (visitHas host name) budget () ps s =
      ((hasOn name F budget ps).map fun found => if found then .inl () else .inr (), s) := by
  induction ps generalizing budget with
  | nil => cases budget <;> rfl
  | cons p ps ih =>
      cases budget with
      | zero => rfl
      | succ budget =>
          unfold visitAll visitHas hasOn
          rw [bind_apply, bind_apply, hasAt_of_mem ok silent (part p List.mem_cons_self)]
          cases (F p).has name with
          | true => rfl
          | false => exact ih budget fun p mem => part p (List.mem_cons_of_mem _ mem)

theorem visitAll_visitNames (ok : Presents S W o chain F s.heap) (silent : SilentOn F chain)
    (budget : Nat) (part : ∀ p ∈ ps, p ∈ chain) (listed : List Text) :
    visitAll (visitNames host) budget listed ps s =
      ((listedOn F budget ps).map fun names => .inr (listed ++ names), s) := by
  induction ps generalizing budget listed with
  | nil => cases budget <;> simp [visitAll, listedOn, Except.map] <;> rfl
  | cons p ps ih =>
      cases budget with
      | zero => rfl
      | succ budget =>
          unfold visitAll listedOn
          rw [bind_apply, visitNames_apply, namesAt_of_mem ok silent (part p List.mem_cons_self)]
          refine (ih budget (fun p mem => part p (List.mem_cons_of_mem _ mem)) _).trans ?_
          cases listedOn F budget ps <;> simp [Except.map]

theorem hasOnChain_of_presents (ok : Presents S W o chain F s.heap) (silent : SilentOn F chain) :
    View.hasOnChain host o name s = (hasOn name F maxPrototypeChain chain, s) := by
  have walked : walkFrom (visitHas host name) () (some o) s = _ :=
    (walkFrom_of_still ok.linked (fun p mem acc acc' s' run => by
      unfold visitHas at run
      rw [bind_apply, hasAt_of_mem ok silent mem] at run
      exact (Prod.mk.inj run).2.symm) ()).trans
      (visitAll_visitHas ok silent _ fun _ mem => mem)
  show (walkFrom (visitHas host name) () (some o) >>= _) s = _
  rw [bind_apply, walked]
  rcases hasOn name F maxPrototypeChain chain with e | _ | _ <;> rfl

theorem namesOnChain_of_presents (ok : Presents S W o chain F s.heap)
    (silent : SilentOn F chain) :
    View.namesOnChain host o s =
      ((listedOn F maxPrototypeChain chain).map View.firstOccurrences, s) := by
  have walked : walkFrom (visitNames host) [] (some o) s = _ :=
    (walkFrom_of_still ok.linked (fun p mem acc acc' s' run => by
      rw [visitNames_apply, namesAt_of_mem ok silent mem] at run
      exact (Prod.mk.inj run).2.symm) []).trans
      (visitAll_visitNames ok silent _ (fun _ mem => mem) [])
  show (walkFrom (visitNames host) [] (some o) >>= _) s = _
  rw [bind_apply, walked]
  rcases listedOn F maxPrototypeChain chain with e | names <;> rfl

/-! ### Static functions that are stored on first use -/

/-- The bytes that an access may need: those of a function object with its name, and those of a
property. -/
def accessBytes : Nat := HostObject.baseBytes + HostObject.propertyBytes + HostObject.propertyBytes

namespace Answers

variable {β : Type} {cost : Nat} {P : Heap → Prop} {Q : α → Heap → Prop}

/-- What a heap operation answers is answered in a session, if the dead objects do not matter. -/
theorem allocating {act : (ClassId → Bool) → HeapM α}
    (settled : ∀ a h, Q a h → Q a { h with reaped := [] })
    (answers : ∀ held, Answers (fun h => h) cost P (act held) Q) :
    Answers Session.heap cost (fun s => P s.heap) (Action.allocating host act)
      (fun a s => Q a s.heap) := by
  intro s hs
  rw [allocating_apply]
  rcases answers (Action.heldOutside host s) s.heap hs with failed | ⟨a, h, run, post, spends⟩
  · exact Or.inl failed
  · refine Or.inr ⟨a, _, by rw [run], ?_⟩
    rw [settle_eq]
    exact ⟨settled a h post, spends.limits, spends.used⟩

theorem holding {act : Action σ α} (cs : List Class)
    (answers : Answers Session.heap cost (fun s => P s.heap) act (fun a s => Q a s.heap)) :
    Answers Session.heap cost (fun s => P s.heap) (Action.holding cs act)
      (fun a s => Q a s.heap) := by
  intro s hs
  rw [holding_apply]
  rcases answers (s.hold cs) hs with failed | ⟨a, t, run, post, spends⟩
  · exact Or.inl failed
  · exact Or.inr ⟨a, t.release s.holding, by rw [run], post, spends.limits, spends.used⟩

theorem push (v : Value) :
    Answers Session.heap 0 (fun s => Presents S W o chain F s.heap)
      (Action.push v : Action σ Unit)
      (fun _ s => Presents (S.push v) W o chain F s.heap) := by
  refine fun s ok => Or.inr ⟨(), { s with heap := s.heap.pushRoot v }, rfl, ?_, rfl, Nat.le_refl _⟩
  refine ok.beside ⟨rfl, rfl, rfl, rfl, rfl⟩ ?_
  rw [Heap.pushRoot, ok.stack]

end Answers

theorem Heap.Presents.settled {h : Heap} (ok : Presents S W o chain F h) :
    Presents S W o chain F { h with reaped := [] } :=
  ok.beside ⟨rfl, rfl, rfl, rfl, rfl⟩ ok.stack

/-- A function object that is made is rooted. -/
theorem answers_makeFunction (rooted : Rooted S W o) (name : Text) (call : HostFunction) :
    Answers Session.heap (HostObject.baseBytes + HostObject.propertyBytes)
      (fun s => Presents S W o chain F s.heap) (View.makeFunction host name call)
      (fun f s => Presents (S.push (.object f)) ((f, .function name call) :: W) o chain F s.heap) :=
  (Answers.allocating (fun _ _ post => ⟨post.1.settled, post.2⟩)
    fun held => answers_allocFunction rooted held name call).bind fun f =>
      ((Answers.push (.object f)).imp (fun _ both => both.1) (fun _ _ post => post)).bind fun _ =>
        Answers.pure fun _ post => post

/-- The value has the content, and the heap presents the faces, with more rooted perhaps. -/
def Heap.Delivers (S : Array Value) (W : List (Handle × Content)) (o : Handle) (chain : List Handle)
    (F : Handle → Face) (content : Content) (v : Value) (h : Heap) : Prop :=
  h.content v = content ∧ ∃ T, Presents (S ++ T) W o chain F h

/-- **A static function that an object does not have yet is stored there.** -/
theorem answers_instanceFunction {entry : StaticFunction} (rooted : Rooted S W o)
    (mem : p ∈ chain) (missing : (F p).own? name = none) :
    Answers Session.heap accessBytes (fun s => Presents S W o chain F s.heap)
      (View.instanceFunction host p entry name)
      (fun v s => Delivers S W o chain (Function.update F p ((F p).add (entry.shown name)))
        (.function name entry.call) v s.heap) := by
  have stored : ∀ f, Answers Session.heap HostObject.propertyBytes
      (fun s =>
        Presents (S.push (.object f)) ((f, .function name entry.call) :: W) o chain F s.heap)
      (do
        Action.allocating host fun held => defineOwn held p ⟨name, .object f, entry.attributes⟩
        return Value.object f)
      (fun v s => Delivers S W o chain (Function.update F p ((F p).add (entry.shown name)))
        (.function name entry.call) v s.heap) := fun f =>
    (Answers.allocating (fun _ _ post => post.settled) fun held =>
      answers_defineOwn_new (rooted.watch f _) mem held ⟨name, .object f, entry.attributes⟩
        (.watched List.mem_cons_self) missing).bind fun _ => Answers.pure fun s post => by
          refine ⟨(post.watched _ List.mem_cons_self).2, #[.object f], ?_⟩
          rw [← Array.push_eq_append]
          exact post.unwatch (List.subset_cons_self _ _)
  intro s ok
  obtain ⟨own, read, face⟩ := ownProperty_of_mem ok mem name
  rw [missing, eq_comm, Option.map_eq_none_iff] at face
  have absent : s.heap.getOwn p name = .ok none := by
    rw [Heap.getOwn, read, face]
    rfl
  unfold View.instanceFunction
  rw [bind_apply]
  simp only [Action.reading, absent]
  exact ((answers_makeFunction rooted name entry.call).bind stored) s ok

/-! ### Reading -/

section Reading

variable (ok : Presents S W o chain F s.heap) (silent : SilentOn F chain) (mem : p ∈ chain)

include ok mem in
theorem getOwn_of_mem (name : Text) :
    ∃ v?, s.heap.getOwn p name = .ok v? ∧
      v?.map s.heap.content = ((F p).own? name).map Shown.content := by
  obtain ⟨own, read, face⟩ := ownProperty_of_mem ok mem name
  refine ⟨own.map Property.value, by rw [Heap.getOwn, read]; rfl, ?_⟩
  rw [face, Option.map_map, Option.map_map]
  rfl

include ok silent mem

theorem getAt_of_mem :
    View.getAt host p name s =
      match (F p).function? name with
      | some entry =>
        Action.holding (F p).ofClass.toList (some <$> View.instanceFunction host p entry name) s
      | none => (s.heap.getOwn p name, s) := by
  unfold View.getAt
  rw [bind_apply]
  simp only [Action.reading, classOf_of_mem ok mem]
  cases ofClass : (F p).ofClass with
  | none =>
      rw [Face.function?, ofClass]
      rfl
  | some c =>
      dsimp only
      rw [(silent p mem c ofClass).getByClass, Face.function?, ofClass, Option.bind_some]
      cases c.onInstance.findSome? fun d => d.function? name <;> rfl

/-- What is there already is read and nothing changes. -/
theorem getAt_of_own {q : Shown} (own : (F p).own? name = some q) :
    ∃ v, View.getAt host p name s = (.ok (some v), s) ∧ s.heap.content v = q.content := by
  obtain ⟨v?, read, content⟩ := getOwn_of_mem ok mem name
  rw [own, Option.map_some, Option.map_eq_some_iff] at content
  obtain ⟨v, rfl, content⟩ := content
  refine ⟨v, ?_, content⟩
  rw [getAt_of_mem ok silent mem]
  cases (F p).function? name with
  | none => rw [read]
  | some entry =>
      dsimp only
      rw [holding_apply, map_apply, instanceFunction_of_own (s := s.hold _) read]
      rfl

theorem getAt_of_unread (unread : (F p).read name = none) :
    View.getAt host p name s = (.ok none, s) := by
  obtain ⟨v?, read, content⟩ := getOwn_of_mem ok mem name
  unfold Face.read at unread
  split at unread
  · cases unread
  · next own =>
      rw [Option.map_eq_none_iff] at unread
      rw [own, Option.map_none, Option.map_eq_none_iff] at content
      rw [getAt_of_mem ok silent mem, unread, read, content]

theorem visitValue_of_unread (unread : (F p).read name = none) :
    visitValue host name () p s = (.ok (.inr ()), s) := by
  unfold visitValue
  rw [bind_apply, getAt_of_unread ok silent mem unread]
  rfl

/-- **What is read at an object is what its face answers.** -/
theorem visitValue_of_read (host : Host σ) (rooted : Rooted S W o) {content : Content} {f : Face}
    (read : (F p).read name = some (content, f)) :
    ((visitValue host name () p s).1 = .error .outOfMemory ∧
      s.heap.limits.maxBytes < s.heap.used + accessBytes) ∨
    ∃ v s', visitValue host name () p s = (.ok (.inl v), s') ∧
      Delivers S W o chain (Function.update F p f) content v s'.heap ∧
      s.heap.Spends accessBytes s'.heap := by
  unfold visitValue
  rw [bind_apply]
  unfold Face.read at read
  split at read
  · next q own =>
      cases read
      obtain ⟨v, run, content⟩ := getAt_of_own ok silent mem own
      rw [run, Function.update_eq_self]
      exact Or.inr ⟨v, s, rfl, ⟨content, #[], by rwa [Array.append_empty]⟩, rfl,
        Nat.le_add_right _ _⟩
  · next missing =>
      obtain ⟨entry, function, same⟩ := Option.map_eq_some_iff.mp read
      cases same
      rw [getAt_of_mem ok silent mem, function]
      have stored : Answers Session.heap accessBytes (fun s => Presents S W o chain F s.heap)
          (Action.holding (F p).ofClass.toList
            (some <$> View.instanceFunction host p entry name))
          (fun v? s => ∃ v, v? = some v ∧ Delivers S W o chain
            (Function.update F p ((F p).add (entry.shown name))) (.function name entry.call)
            v s.heap) :=
        Answers.holding (Q := fun v? h => ∃ v, v? = some v ∧ Delivers S W o chain _ _ v h) _
          ((answers_instanceFunction rooted mem missing).map fun v _ post => ⟨v, rfl, post⟩)
      dsimp only
      rcases stored s ok with ⟨failed, full⟩ | ⟨_, t, run, ⟨v, rfl, post⟩, spends⟩
      · refine Or.inl ⟨?_, full⟩
        rcases run : Action.holding (F p).ofClass.toList
          (some <$> View.instanceFunction host p entry name) s with ⟨e | a, t⟩ <;>
          rw [run] at failed <;> cases failed
        rfl
      · exact Or.inr ⟨v, t, by rw [run]; rfl, post, spends⟩

end Reading

/-! ### What accesses do with their operands rooted -/

/-- What an action answers, as a reply, and the heap that it leaves. -/
def replying (reply : α → Reply Value) (act : Action σ α) (s : Session σ) :
    Except Fault (Reply Value) × Heap := ((act s).1.map reply, (act s).2.heap)

/-- There was too little room and no memory is the answer, or the answer is as said up to the
identity of functions and the heap presents the faces that are said to be left. -/
def Mirrors (S : Array Value) (W : List (Handle × Content)) (o : Handle) (chain : List Handle)
    (start : Heap) (answer : Except Fault (Reply Value) × Heap)
    (outcome : Except Fault (Reply Content) × (Handle → Face)) : Prop :=
  (answer.1 = .error .outOfMemory ∧ start.limits.maxBytes < start.used + accessBytes) ∨
  (answer.1.map (Reply.map answer.2.content) = outcome.1 ∧
    (∃ T, Presents (S ++ T) W o chain outcome.2 answer.2) ∧ start.Spends accessBytes answer.2)

section Bodies

variable {act : Action σ α} (ok : Presents S W o chain F s.heap) (silent : SilentOn F chain)

include ok

/-- What changes nothing leaves the faces. -/
theorem mirrors_of_still {reply : α → Reply Value} {shown : α → Reply Content} {r : Except Fault α}
    (run : act s = (r, s)) (same : ∀ a, (reply a).map s.heap.content = shown a) :
    Mirrors S W o chain s.heap (replying reply act s) (r.map shown, F) := by
  refine Or.inr ?_
  rw [replying, run]
  refine ⟨?_, ⟨#[], by rwa [Array.append_empty]⟩, rfl, Nat.le_add_right _ _⟩
  cases r with
  | error e => rfl
  | ok a => exact congrArg Except.ok (same a)

include silent

theorem mirrors_hasOnChain :
    Mirrors S W o chain s.heap (replying .truth (View.hasOnChain host o name) s)
      ((hasOn name F maxPrototypeChain chain).map .truth, F) :=
  mirrors_of_still ok (hasOnChain_of_presents ok silent) fun _ => rfl

theorem mirrors_namesOnChain :
    Mirrors S W o chain s.heap (replying .names (View.namesOnChain host o) s)
      ((listedOn F maxPrototypeChain chain).map fun ns => .names (View.firstOccurrences ns),
        F) := by
  have still : Mirrors S W o chain s.heap (replying .names (View.namesOnChain host o) s)
      (((listedOn F maxPrototypeChain chain).map View.firstOccurrences).map .names, F) :=
    mirrors_of_still ok (namesOnChain_of_presents ok silent) fun _ => rfl
  rwa [show ((listedOn F maxPrototypeChain chain).map View.firstOccurrences).map Reply.names =
    (listedOn F maxPrototypeChain chain).map fun ns => .names (View.firstOccurrences ns) by
      cases listedOn F maxPrototypeChain chain <;> rfl] at still

/-- What a visit of a look-up answers. -/
def visitReply : Value ⊕ Unit → Reply Value
  | .inl v => .value v
  | .inr () => .value .undefined

theorem mirrors_visitValue (rooted : Rooted S W o) (budget : Nat) (part : ∀ p ∈ ps, p ∈ chain) :
    Mirrors S W o chain s.heap
      (replying visitReply (visitAll (visitValue host name) budget () ps) s)
      ((readOn name F budget ps).1.map fun c => .value (c.getD (.value .undefined)),
        (readOn name F budget ps).2) := by
  have ends : ∀ r : Except Fault (Value ⊕ Unit),
      visitAll (visitValue host name) budget () ps s = (r, s) →
      Mirrors S W o chain s.heap
        (replying visitReply (visitAll (visitValue host name) budget () ps) s)
        (r.map fun a => (visitReply a).map s.heap.content, F) :=
    fun r run => mirrors_of_still ok run fun _ => rfl
  induction ps generalizing budget with
  | nil => cases budget <;> exact ends (.ok (.inr ())) rfl
  | cons p ps ih =>
      cases budget with
      | zero => exact ends (.error .prototypeChainTooDeep) rfl
      | succ budget =>
          have mem := part p List.mem_cons_self
          unfold readOn
          cases read : (F p).read name with
          | none =>
              have on : visitAll (visitValue host name) (budget + 1) () (p :: ps) s =
                  visitAll (visitValue host name) budget () ps s := by
                rw [visitAll, bind_apply, visitValue_of_unread ok silent mem read]
              rw [replying, on]
              exact ih budget (fun p mem => part p (List.mem_cons_of_mem _ mem))
                fun _ run => mirrors_of_still ok run fun _ => rfl
          | some found =>
              obtain ⟨content, f⟩ := found
              unfold replying visitAll
              rw [bind_apply]
              rcases visitValue_of_read ok silent mem host rooted read with
                ⟨failed, full⟩ | ⟨v, t, run, ⟨same, presented⟩, spends⟩
              · rcases run : visitValue host name () p s with ⟨e | a, t⟩ <;>
                  rw [run] at failed <;> cases failed
                exact Or.inl ⟨rfl, full⟩
              · rw [run]
                exact Or.inr ⟨congrArg (fun c => Except.ok (Reply.value c)) same, presented, spends⟩

theorem mirrors_lookUp (rooted : Rooted S W o) :
    Mirrors S W o chain s.heap (replying .value (View.lookUp host o name) s)
      ((readOn name F maxPrototypeChain chain).1.map fun c => .value (c.getD (.value .undefined)),
        (readOn name F maxPrototypeChain chain).2) := by
  have walked : walkFrom (visitValue host name) () (some o) s =
      visitAll (visitValue host name) maxPrototypeChain () chain s := by
    refine walkFrom_of_still ok.linked (fun p mem acc acc' s' run => ?_) ()
    cases read : (F p).read name with
    | none =>
        rw [visitValue_of_unread ok silent mem read] at run
        exact (Prod.mk.inj run).2.symm
    | some found =>
        rcases visitValue_of_read ok silent mem host rooted read with
          ⟨failed, -⟩ | ⟨v, t, done, -⟩
        · rw [run] at failed
          cases failed
        · rw [run] at done
          cases done
  have same : replying .value (View.lookUp host o name) s =
      replying visitReply (visitAll (visitValue host name) maxPrototypeChain () chain) s := by
    unfold replying
    rw [lookUp_apply, walked]
    rcases visitAll (visitValue host name) maxPrototypeChain () chain s with ⟨e | v | ⟨⟩, t⟩ <;>
      rfl
  rw [same]
  exact mirrors_visitValue ok silent rooted maxPrototypeChain fun _ mem => mem

omit silent in
theorem start_mem : o ∈ chain := by
  cases ok.linked <;> exact List.mem_cons_self

omit silent in
theorem mirrors_writeOwn (host : Host σ) (rooted : Rooted S W o) (own : Property)
    {stored : Except Fault Content} (atHand : AtHand W o own.value stored) :
    Mirrors S W o chain s.heap (replying (fun _ => .done) (View.writeOwn host o own) s)
      (storeOn o F own.name own.attributes stored) := by
  cases stored with
  | error e =>
      -- What cannot be stored is found out before anything is changed.
      have refused : ∀ held, Heap.putOwn held o own s.heap = (.error e, s.heap) := by
        intro held
        have unstorable := ok.storing atHand
        unfold Heap.storing at unstorable
        unfold Heap.putOwn
        rw [bind_apply]
        rcases check : s.heap.checkStorable own.value with e' | u <;> rw [check] at unstorable <;>
          cases unstorable
        simp only [Heap.reading, check]
      refine Or.inr ?_
      unfold replying View.writeOwn
      rw [bind_apply, allocating_apply, refused, settle_eq]
      exact ⟨rfl, ⟨#[], by rw [Array.append_empty]; exact ok.settled⟩, rfl, Nat.le_add_right _ _⟩
  | ok content =>
      have written : Answers Session.heap HostObject.propertyBytes
          (fun s => Presents S W o chain F s.heap) (View.writeOwn host o own)
          (fun _ s => Presents S W o chain
            (Function.update F o ((F o).write ⟨own.name, content, own.attributes⟩)) s.heap) :=
        (Answers.allocating (fun _ _ post => post.settled) fun held =>
          answers_putOwn rooted (start_mem ok) held own atHand).bind fun _ =>
            Answers.pure fun _ post => post
      rcases written s ok with ⟨failed, full⟩ | ⟨a, t, run, post, limits, used⟩
      · refine Or.inl ⟨?_, by unfold accessBytes; omega⟩
        rw [replying, failed]
        rfl
      · refine Or.inr ?_
        rw [replying, run]
        refine ⟨rfl, ⟨#[], by rwa [Array.append_empty]⟩, limits, Nat.le_trans used ?_⟩
        unfold accessBytes
        omega

theorem mirrors_write (rooted : Rooted S W o) (own : Property) {stored : Except Fault Content}
    (atHand : AtHand W o own.value stored) :
    Mirrors S W o chain s.heap (replying (fun _ => .done) (View.write host o own) s)
      (if (F o).refusesWrite own.name then (.ok .done, F)
        else storeOn o F own.name own.attributes stored) := by
  have mem := start_mem ok
  have written := mirrors_writeOwn ok host rooted own atHand
  cases ofClass : (F o).ofClass with
  | none =>
      have run : View.write host o own s = View.writeOwn host o own s := by
        unfold View.write
        rw [bind_apply]
        simp only [Action.reading, classOf_of_mem ok mem, ofClass]
      rw [Face.refusesWrite, ofClass, replying, run]
      exact written
  | some c =>
      have run : View.write host o own s =
          (if View.hasReadOnlyFunction c own.name then pure ()
            else View.writeOwn host o own) s := by
        unfold View.write
        rw [bind_apply]
        simp only [Action.reading, classOf_of_mem ok mem, ofClass,
          (silent o mem c ofClass).setByClass, holding_pure, pure_bind]
      rw [Face.refusesWrite, ofClass, replying, run, Option.any_some]
      cases refused : View.hasReadOnlyFunction c own.name with
      | true =>
          have still : Mirrors S W o chain s.heap
              (replying (fun _ => .done) (pure () : Action σ Unit) s)
              ((.ok () : Except Fault Unit).map fun _ => .done, F) :=
            mirrors_of_still ok rfl fun _ => rfl
          exact still
      | false => exact written

omit silent in
theorem mirrors_deleteThrough :
    Mirrors S W o chain s.heap (replying .truth (View.deleteThrough host o name []) s)
      (if ((F o).own? name).any (fun p => p.attributes.permanent) then (.ok (.truth false), F)
        else (.ok (.truth true), Function.update F o ((F o).remove name))) := by
  have mem := start_mem ok
  have run : View.deleteThrough host o name [] s =
      (if ((F o).own? name).any (fun p => p.attributes.permanent) then pure false
        else Action.editing (Heap.deleteOwn o name)) s := by
    unfold View.deleteThrough
    rw [bind_apply]
    simp only [Action.reading, ownAttributes_of_mem ok mem, Option.any_map]
    rfl
  rw [replying, run]
  cases permanent : ((F o).own? name).any (fun p => p.attributes.permanent) with
  | true =>
      have still : Mirrors S W o chain s.heap (replying .truth (pure false : Action σ Bool) s)
          ((.ok false : Except Fault Bool).map .truth, F) := mirrors_of_still ok rfl fun _ => rfl
      exact still
  | false =>
      rcases answers_deleteOwn mem name permanent s.heap ok with
        ⟨failed, full⟩ | ⟨_, h, run, ⟨rfl, post⟩, limits, used⟩
      · refine Or.inl ⟨?_, Nat.lt_of_lt_of_le full (Nat.add_le_add_left (Nat.zero_le _) _)⟩
        rw [if_neg (by simp)]
        exact congrArg (Except.map Reply.truth) failed
      · refine Or.inr ?_
        rw [if_neg (by simp), if_neg (by simp)]
        simp only [Action.editing, run]
        exact ⟨rfl, ⟨#[], by rwa [Array.append_empty]⟩, limits,
          Nat.le_trans used (Nat.le_add_right _ _)⟩

theorem mirrors_deleteAt :
    Mirrors S W o chain s.heap (replying .truth (View.deleteAt host o name) s)
      (.ok (.truth ((F o).delete name).1), Function.update F o ((F o).delete name).2) := by
  have mem := start_mem ok
  have through : ∀ t : Session σ, t.heap = s.heap →
      Mirrors S W o chain s.heap (replying .truth (View.deleteThrough host o name []) t) _ :=
    fun t same => same ▸ mirrors_deleteThrough (s := t) (same ▸ ok)
  have outcome : (F o).refusesDelete name = false →
      (if ((F o).own? name).any (fun p => p.attributes.permanent) then (.ok (.truth false), F)
        else (.ok (.truth true), Function.update F o ((F o).remove name)) :
          Except Fault (Reply Content) × (Handle → Face)) =
      (.ok (.truth ((F o).delete name).1), Function.update F o ((F o).delete name).2) := by
    intro allowed
    rw [Face.delete, allowed, Bool.false_or]
    split <;> simp
  unfold View.deleteAt replying
  rw [bind_apply]
  simp only [Action.reading, classOf_of_mem ok mem]
  cases ofClass : (F o).ofClass with
  | none =>
      rw [← outcome (by rw [Face.refusesDelete, ofClass]; rfl)]
      exact through s rfl
  | some c =>
      have refuses : (F o).refusesDelete name = View.hasPermanentEntry c name := by
        rw [Face.refusesDelete, ofClass]
        rfl
      dsimp only
      cases permanent : View.hasPermanentEntry c name with
      | true =>
          have still : Mirrors S W o chain s.heap (replying .truth (pure false : Action σ Bool) s)
              ((.ok false : Except Fault Bool).map .truth, F) :=
            mirrors_of_still ok rfl fun _ => rfl
          have refused : (F o).delete name = (false, F o) := by
            rw [Face.delete, refuses, permanent]
            rfl
          rw [refused, Function.update_eq_self]
          exact still
      | false =>
          rw [if_neg (by simp), (silent o mem c ofClass).deleteThrough,
            ← outcome (refuses.trans permanent)]
          exact through (s.hold [c]) rfl

end Bodies

/-! ### Whole accesses -/

/-- The heap of the session presents the faces, and what is watched is rooted in the view. -/
structure Ready (W : List (Handle × Content)) (o : Handle) (chain : List Handle)
    (F : Handle → Face) (s : Session σ) : Prop where
  presents : Presents s.heap.stack W o chain F s.heap
  rooted : ∀ e ∈ W, .object e.1 ∈ s.heap.stack

/-- The rooted objects, with what they are. -/
def Heap.rootedContents (h : Heap) : List (Handle × Content) :=
  h.stack.toList.filterMap fun v =>
    match v with
    | .object f => if h.isValid f then some (f, h.content (.object f)) else none
    | _ => none

theorem Heap.mem_rootedContents_iff {h : Heap} {f : Handle} {content : Content} :
    (f, content) ∈ h.rootedContents ↔
      .object f ∈ h.stack ∧ h.isValid f = true ∧ h.content (.object f) = content := by
  unfold rootedContents
  rw [List.mem_filterMap]
  constructor
  · rintro ⟨v, mem, same⟩
    cases v with
    | object g =>
        dsimp only at same
        split at same
        · next valid =>
            cases same
            exact ⟨Array.mem_toList_iff.mp mem, valid, rfl⟩
        · cases same
    | _ => cases same
  · rintro ⟨mem, valid, rfl⟩
    exact ⟨.object f, Array.mem_toList_iff.mpr mem, if_pos valid⟩

/-- Accesses may start where the objects on the chain link to objects that are there. -/
theorem ready_of_closed (intact : Intact s.heap) (walk : PrototypeChain s.heap o chain)
    (closed : ∀ p ∈ chain, ∀ obj, s.heap.object p = .ok obj →
      ∀ l ∈ obj.links, s.heap.isValid l = true) :
    Ready s.heap.rootedContents o chain s.heap.face s where
  presents :=
    { intact, closed, linked := walk, stack := rfl, faces := fun _ _ => rfl
      watched := fun _ mem => (mem_rootedContents_iff.mp mem).2 }
  rooted _ mem := (mem_rootedContents_iff.mp mem).1

/-- Contents do not depend on the stack. -/
theorem Heap.content_congr {h h' : Heap} (same : SameTable h h') : h'.content = h.content := by
  funext v
  cases v with
  | object f => simp only [content, same.object]
  | _ => rfl

/-- What an access did: it ran out of memory for want of room, or it answered as said, and the
session is ready again. -/
def Follows (W : List (Handle × Content)) (o : Handle) (chain : List Handle) (start : Session σ)
    (outcome : Except Fault (Reply Content) × (Handle → Face))
    (result : Except Fault (Reply Value) × Session σ) : Prop :=
  (result.1 = .error .outOfMemory ∧
    start.heap.limits.maxBytes < start.heap.used + accessBytes) ∨
  (result.1.map (Reply.map result.2.heap.content) = outcome.1 ∧
    Ready W o chain outcome.2 result.2 ∧ start.heap.Spends accessBytes result.2.heap)

/-- What the heap presents at the end of an operation is presented between operations. -/
theorem follows_of_presents {t : Session σ} {T : Array Value} {h : Heap}
    {outcome : Except Fault (Reply Content) × (Handle → Face)} {r : Except Fault (Reply Value)}
    (ready : Ready W o chain F s) (answer : r.map (Reply.map t.heap.content) = outcome.1)
    (left : Presents (S ++ T) W o chain outcome.2 t.heap)
    (spends : s.heap.Spends accessBytes t.heap) (same : SameTable t.heap h)
    (limits : h.limits = t.heap.limits) (stack : ∃ more, h.stack = s.heap.stack ++ more) :
    Follows W o chain s outcome (r, t.withHeap h) := by
  refine Or.inr ⟨?_, ⟨left.beside same rfl, fun e mem => ?_⟩, limits.trans spends.limits, ?_⟩
  · rw [← answer, ← content_congr same]
    rfl
  · obtain ⟨more, eq⟩ := stack
    show _ ∈ h.stack
    rw [eq]
    exact Array.mem_append_left _ (ready.rooted e mem)
  · exact Nat.le_trans (Nat.le_of_eq same.used) spends.used

/-- **A direct operation does what its body does.** -/
theorem follows_of_mirrors {q : Invocation α} {reply : α → Reply Value}
    {outcome : Except Fault (Reply Content) × (Handle → Face)} (direct : q.target? = some o)
    (ready : Ready W o chain F s)
    (body : Mirrors (s.heap.rootAll q.operands).stack W o chain (s.heap.rootAll q.operands)
      (replying reply (q.body host) (s.withHeap (s.heap.rootAll q.operands))) outcome) :
    Follows W o chain s outcome ((reply <$> q.perform host) s) := by
  have valid := ready.presents.linked.isValid_start
  have cut : ∀ h T, Presents ((s.heap.rootAll q.operands).stack ++ T) W o chain outcome.2 h →
      (h.cutStack s.heap.stack.size).stack = s.heap.stack := by
    intro h T left
    rw [cutStack, left.stack, rootAll, Array.append_assoc]
    simp
  rw [q.perform_eq_withOperands direct, map_apply, withOperands_apply valid]
  unfold replying at body
  rcases run : q.body host (s.withHeap (s.heap.rootAll q.operands)) with ⟨e | a, t⟩ <;>
    rw [run] at body
  · rcases body with ⟨failed, full⟩ | ⟨answer, ⟨T, left⟩, spends⟩
    · exact Or.inl ⟨failed, full⟩
    · exact follows_of_presents ready answer left ⟨spends.limits, spends.used⟩
        ⟨rfl, rfl, rfl, rfl, rfl⟩ rfl ⟨#[], by rw [cut _ T left, Array.append_empty]⟩
  · rcases body with ⟨failed, -⟩ | ⟨answer, ⟨T, left⟩, spends⟩
    · cases failed
    · have rooted := (t.heap.cutStack s.heap.stack.size).sameTable_withResult (q.returned a)
      refine follows_of_presents ready answer left ⟨spends.limits, spends.used⟩
        ⟨rooted.id, rooted.slots, rooted.marks, rooted.free, rooted.used⟩ ?_ ?_
      · cases q.returned a <;> rfl
      · cases q.returned a with
        | none => exact ⟨#[], by rw [withResult, cut _ T left, Array.append_empty]⟩
        | some v => exact ⟨_, by rw [withResult, rootAll, cut _ T left]⟩

namespace Access

/-- Runs the access. -/
def perform (host : Host σ) (o : Handle) : Access Value → Action σ (Reply Value)
  | has name => .truth <$> View.hasProperty host o name
  | get name => .value <$> View.getProperty host o name
  | set name v attributes => (fun _ => .done) <$> View.setProperty host o name v attributes
  | delete name => .truth <$> View.deleteProperty host o name
  | names => .names <$> View.propertyNames host o

theorem perform_get (host : Host σ) (o : Handle) (name : Text) (s : Session σ) :
    (get name).perform host o s =
      ((View.getProperty host o name s).1.map .value, (View.getProperty host o name s).2) := by
  rw [perform, map_apply]
  rcases View.getProperty host o name s with ⟨_ | _, _⟩ <;> rfl

/-- The value that the access writes. -/
def written? {V : Type} : Access V → Option V
  | set _ v _ => some v
  | _ => none

/-- **An access does on objects what it does on faces.** -/
theorem follows {a : Access Value} {storing : Value → Except Fault Content}
    (ready : Ready W o chain F s) (silent : SilentOn F chain)
    (atHand : ∀ v, a.written? = some v → AtHand W o v (storing v)) :
    Follows W o chain s ((a.map storing).on o chain F) (a.perform host o s) := by
  have presents : ∀ operands, Presents (s.heap.rootAll operands).stack W o chain F
      (s.withHeap (s.heap.rootAll operands)).heap :=
    fun operands => ready.presents.beside (s.heap.sameTable_rootAll operands) rfl
  have rooted : ∀ operands, .object o ∈ operands →
      Rooted (s.heap.rootAll operands).stack W o := fun operands mem =>
    ⟨mem_stack_rootAll mem ready.presents.linked.isValid_start,
      fun e mem => Array.mem_append_left _ (ready.rooted e mem)⟩
  cases a with
  | has name =>
      exact follows_of_mirrors (q := .has o name) rfl ready (mirrors_hasOnChain (presents _) silent)
  | get name =>
      exact follows_of_mirrors (q := .get o name) rfl ready
        (mirrors_lookUp (presents _) silent (rooted _ List.mem_cons_self))
  | set name v attributes =>
      exact follows_of_mirrors (q := .set o name v attributes) rfl ready
        (mirrors_write (presents _) silent (rooted _ List.mem_cons_self) ⟨name, v, attributes⟩
          (atHand v rfl))
  | delete name =>
      exact follows_of_mirrors (q := .delete o name) rfl ready
        (mirrors_deleteAt (presents _) silent)
  | names =>
      exact follows_of_mirrors (q := .names o) rfl ready (mirrors_namesOnChain (presents _) silent)

end Access

end HostObjects
