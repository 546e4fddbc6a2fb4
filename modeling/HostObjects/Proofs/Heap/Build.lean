import HostObjects.Proofs.Heap.ObjectGraph

/-!
# Building class prototypes

`prototypeOf` goes up the class chain until it meets a class whose prototype is there, or
is the plain one, and builds what is missing on the way back (`buildPrototype`).  A
contract of the whole is proved by a rule with one premise for each of the three
(`meets_prototypeOf`).

What a new prototype holds is followed from step to step.  `Known` lists some objects of
the heap with their handles, and `Learns` is the contract of an operation that starts with
one such list and ends with another.  Making room keeps all objects of the list if each of
them is rooted or a property of one that is; nothing else has to be known of the heap.  So
the list grows by a function for each entry of the class, and the prototype by a property
that holds it (`Learns.populate`).
-/

namespace HostObjects

/-! ### First entries -/

namespace Descriptor

variable {α : Type} {name : α → Text}

/-- What is left of the entries has names of its own. -/
theorem nodup_firstsBy (seen : List Text) (as : List α) :
    ((firstsBy name seen as).map name).Nodup ∧ ∀ a ∈ firstsBy name seen as, name a ∉ seen := by
  induction as generalizing seen with
  | nil => exact ⟨List.nodup_nil, fun _ mem => absurd mem List.not_mem_nil⟩
  | cons a as ih =>
      unfold firstsBy
      split
      · exact ih seen
      · next new =>
          obtain ⟨nodup, unseen⟩ := ih (name a :: seen)
          refine ⟨List.nodup_cons.mpr ⟨fun mem => ?_, nodup⟩, fun b mem => ?_⟩
          · obtain ⟨b, mem, same⟩ := List.mem_map.mp mem
            exact unseen b mem (same ▸ List.mem_cons_self)
          · rcases List.mem_cons.mp mem with rfl | mem
            · simpa using new
            · exact fun seen' => unseen b mem (List.mem_cons_of_mem _ seen')

/-- What is left is in the order of the entries. -/
theorem firstsBy_sublist (seen : List Text) (as : List α) :
    (firstsBy name seen as).Sublist as := by
  induction as generalizing seen with
  | nil => exact List.Sublist.refl _
  | cons a as ih =>
      unfold firstsBy
      split
      · exact (ih seen).cons a
      · exact (ih _).cons_cons a

/-- Of each name that was not seen the first entry is left. -/
theorem find?_firstsBy (seen : List Text) (as : List α) {n : Text} (new : n ∉ seen) :
    (firstsBy name seen as).find? (fun a => name a == n) = as.find? fun a => name a == n := by
  induction as generalizing seen with
  | nil => rfl
  | cons a as ih =>
      unfold firstsBy
      by_cases same : name a = n
      · subst same
        rw [if_neg (by simpa using new), List.find?_cons_of_pos (by simp),
          List.find?_cons_of_pos (by simp)]
      · rw [List.find?_cons_of_neg (by simpa using same)]
        split
        · exact ih seen new
        · rw [List.find?_cons_of_neg (by simpa using same)]
          refine ih _ fun mem => ?_
          exact (List.mem_cons.mp mem).elim (fun eq => same eq.symm) new

/-- The entries are the first of each name among the static functions of a class, in the
order of their declaration. -/
structure Firsts (d : Descriptor) (entries : List StaticFunction) : Prop where
  ordered : entries.Sublist d.functions
  nodup : (entries.map StaticFunction.name).Nodup
  first : ∀ name, (entries.find? fun f => f.name == name) = d.function? name

theorem firsts_firstFunctions (d : Descriptor) : d.Firsts d.firstFunctions where
  ordered := firstsBy_sublist [] d.functions
  nodup := (nodup_firstsBy [] d.functions).1
  first _ := find?_firstsBy [] d.functions List.not_mem_nil

end Descriptor

/-- The object has no class, and a call of it runs the host function. -/
structure HostObject.Runs (obj : HostObject) (name : Text) (call : HostFunction) : Prop where
  plain : obj.ofClass = none
  behaviour : obj.behaviour = .function name call

namespace Heap

variable {h h' : Heap} {held : ClassId → Bool} {d : Descriptor} {ancestors : List Descriptor}
  {proto parent : Handle}

/-! ### Along a class chain -/

/-- Builds the prototype of a class on that of its parent, and records it. -/
def buildPrototype (held : ClassId → Bool) (d : Descriptor) (parent : Handle) :
    HeapM Handle := do
  let proto ← alloc held (.ordinary (some parent))
  rooting (.object proto) (populate held proto d.firstFunctions)
  modify (recordPrototype d.id proto)
  return proto

theorem prototypeOf_plain (plain : d.automatic = false) (h : Heap) :
    prototypeOf held (d :: ancestors) h = (.ok h.objectPrototype, h) := by
  unfold prototypeOf
  rw [get_bind_apply, plain]
  rfl

theorem prototypeOf_cached (automatic : d.automatic = true)
    (cached : h.classPrototype? d.id = some proto) :
    prototypeOf held (d :: ancestors) h = (.ok proto, h) := by
  unfold prototypeOf
  rw [get_bind_apply, automatic, cached]
  rfl

theorem prototypeOf_missing (automatic : d.automatic = true)
    (missing : h.classPrototype? d.id = none) :
    prototypeOf held (d :: ancestors) h =
      (prototypeOf held ancestors >>= buildPrototype held d) h := by
  conv_lhs => unfold prototypeOf
  rw [get_bind_apply, automatic, missing]
  rfl

/-- **The rule for class prototypes**: an invariant, and what is known of every prototype
that is answered.  It has to be known of the plain one and of those that are there, and to
follow for a new one from what is known of its parent. -/
theorem meets_prototypeOf {I : Heap → Prop} {A : Handle → Heap → Prop}
    {chain : List Descriptor} (plain : ∀ h, I h → A h.objectPrototype h)
    (cached : ∀ d ∈ chain, ∀ h proto, I h → h.classPrototype? d.id = some proto → A proto h)
    (build : ∀ d ∈ chain, ∀ h, I h → h.classPrototype? d.id = none → ∀ parent,
      Meets (fun h => I h ∧ A parent h) (buildPrototype held d parent)
        (fun proto h => I h ∧ A proto h) I) :
    Meets I (prototypeOf held chain) (fun proto h => I h ∧ A proto h) I := by
  induction chain with
  | nil =>
      refine Meets.bind Meets.get fun start => Meets.pure ?_
      rintro h ⟨hs, rfl⟩
      exact ⟨hs, plain _ hs⟩
  | cons d ancestors ih =>
      have rest := ih (fun d mem => cached d (List.mem_cons_of_mem _ mem))
        fun d mem => build d (List.mem_cons_of_mem _ mem)
      intro h hs
      cases automatic : d.automatic with
      | false =>
          rw [prototypeOf_plain automatic]
          refine ⟨fun _ _ run => ?_, fun _ _ run => ?_⟩ <;> cases run
          exact ⟨hs, plain h hs⟩
      | true =>
          cases there : h.classPrototype? d.id with
          | some proto =>
              rw [prototypeOf_cached automatic there]
              refine ⟨fun _ _ run => ?_, fun _ _ run => ?_⟩ <;> cases run
              exact ⟨hs, cached d List.mem_cons_self h _ hs there⟩
          | none =>
              -- Nothing is recorded at the start, from where the parents are built first.
              rw [prototypeOf_missing automatic there]
              exact rest.bind (build d List.mem_cons_self h hs there) h hs

/-! ### Known objects -/

/-- The heap has this stack of roots, and these objects under their handles. -/
structure Known (S : Array Value) (K : List (Handle × HostObject)) (h : Heap) : Prop where
  intact : Intact h
  stack : h.stack = S
  found : ∀ e ∈ K, h.object e.1 = .ok e.2
  nodup : (K.map Prod.fst).Nodup

/-- Each of the objects is rooted, or a property of one of them that is. -/
def Anchored (S : Array Value) (K : List (Handle × HostObject)) : Prop :=
  ∀ e ∈ K, .object e.1 ∈ S.toList ∨
    ∃ e' ∈ K, .object e'.1 ∈ S.toList ∧ ∃ p ∈ e'.2.properties, p.value = .object e.1

variable {S : Array Value} {K K' : List (Handle × HostObject)} {o : Handle}
  {obj new : HostObject} {v : Value} {p : Property}

theorem Anchored.push (anchored : Anchored S K) (v : Value) : Anchored (S.push v) K := by
  have more : ∀ w, w ∈ S.toList → w ∈ (S.push v).toList := fun w mem => by simp [mem]
  intro e mem
  exact (anchored e mem).imp (more _) fun ⟨e', mem', rooted, holds⟩ =>
    ⟨e', mem', more _ rooted, holds⟩

theorem Anchored.perm (anchored : Anchored S K) (perm : K'.Perm K) : Anchored S K' :=
  fun e mem => (anchored e (perm.mem_iff.mp mem)).imp_right fun ⟨e', mem', rest⟩ =>
    ⟨e', perm.mem_iff.mpr mem', rest⟩

theorem Anchored.cons (anchored : Anchored S K) (rooted : .object o ∈ S.toList) :
    Anchored S ((o, obj) :: K) := by
  intro e mem
  rcases List.mem_cons.mp mem with rfl | mem
  · exact Or.inl rooted
  · exact (anchored e mem).imp_right fun ⟨e', mem', rest⟩ =>
      ⟨e', List.mem_cons_of_mem _ mem', rest⟩

/-- A rooted object with one more property anchors the object that the property holds. -/
theorem Anchored.withAdded {f : Handle} {fobj : HostObject}
    (anchored : Anchored S ((o, obj) :: K)) (rooted : .object o ∈ S.toList)
    (value : p.value = .object f) :
    Anchored S ((o, withAdded p obj) :: (f, fobj) :: K) := by
  intro e mem
  rcases List.mem_cons.mp mem with rfl | mem
  · exact Or.inl rooted
  rcases List.mem_cons.mp mem with rfl | mem
  · refine Or.inr ⟨_, List.mem_cons_self, rooted, p, ?_, value⟩
    exact List.mem_append_right _ List.mem_cons_self
  rcases anchored e (List.mem_cons_of_mem _ mem) with there | ⟨e', mem', there, q, memq, holds⟩
  · exact Or.inl there
  rcases List.mem_cons.mp mem' with rfl | mem'
  · exact Or.inr ⟨_, List.mem_cons_self, rooted, q, List.mem_append_left _ memq, holds⟩
  · refine Or.inr ⟨e', ?_, there, q, memq, holds⟩
    exact List.mem_cons_of_mem _ (List.mem_cons_of_mem _ mem')

namespace Known

theorem beside (known : Known S K h) (same : SameTable h h') (stack : h'.stack = h.stack) :
    Known S K h' where
  intact := known.intact.congr same
  stack := stack.trans known.stack
  found e mem := by
    rw [same.object]
    exact known.found e mem
  nodup := known.nodup

theorem push (known : Known S K h) (v : Value) : Known (S.push v) K (h.pushRoot v) where
  intact := known.intact.congr ⟨rfl, rfl, rfl, rfl, rfl⟩
  stack := congrArg (Array.push · v) known.stack
  found := known.found
  nodup := known.nodup

theorem alive (known : Known S K h) (anchored : Anchored S K) {e : Handle × HostObject}
    (mem : e ∈ K) : Alive held h (.object e.1) := by
  have rooted : ∀ e ∈ K, .object e.1 ∈ S.toList → Alive held h (.object e.1) :=
    fun e mem there =>
      .stack (by rw [known.stack]; exact there) (isValid_of_object (known.found e mem))
  rcases anchored e mem with there | ⟨e', mem', there, p, holds, value⟩
  · exact rooted e mem there
  · exact (rooted e' mem' there).property (known.found e' mem') holds value
      (isValid_of_object (known.found e mem))

/-- Making room keeps what is anchored. -/
theorem makeRoom (known : Known S K h) (anchored : Anchored S K) (held : ClassId → Bool)
    (bytes : Nat) : Known S K (Heap.makeRoom held bytes h).2 := by
  rcases makeRoom_state held bytes h with eq | eq | eq <;> rw [eq]
  · exact known
  · exact known.beside ⟨rfl, rfl, rfl, rfl, rfl⟩ rfl
  · exact ⟨known.intact.collect held, known.stack, fun e mem =>
      object_collect_of_alive known.intact (known.found e mem) (known.alive anchored mem),
      known.nodup⟩

theorem place (known : Known S K h) (obj : HostObject) :
    Known S (((h.place obj).1, obj) :: K) (h.place obj).2 := by
  have empty := known.intact.freeIsEmpty
  have new : ∀ e ∈ K, e.1 ≠ (h.place obj).1 := by
    intro e mem same
    have valid := isValid_of_object (known.found e mem)
    rw [same, not_isValid_place_fst empty] at valid
    cases valid
  refine ⟨stable_intact.place obj h known.intact, (place_stack h obj).trans known.stack,
    fun e mem => ?_, List.nodup_cons.mpr ⟨fun mem => ?_, known.nodup⟩⟩
  · rw [object_place empty]
    rcases List.mem_cons.mp mem with rfl | mem
    · exact if_pos rfl
    · rw [if_neg (new e mem)]
      exact known.found e mem
  · obtain ⟨e, mem, same⟩ := List.mem_map.mp mem
    exact new e mem same

theorem store (known : Known S ((o, obj) :: K) h) (new : HostObject) :
    Known S ((o, new) :: K) (h.store o.index new) := by
  have found := known.found _ List.mem_cons_self
  have other := (List.nodup_cons.mp known.nodup).1
  refine ⟨stable_intact.store o obj new h found known.intact, known.stack, fun e mem => ?_,
    known.nodup⟩
  rw [object_store found]
  rcases List.mem_cons.mp mem with rfl | mem
  · exact if_pos rfl
  · have there : e.1 ∈ K.map Prod.fst := List.mem_map_of_mem mem
    have apart : e.1 ≠ o := fun same => other (by rwa [same] at there)
    rw [if_neg apart]
    exact known.found e (List.mem_cons_of_mem _ mem)

theorem perm (known : Known S K h) (perm : K'.Perm K) : Known S K' h :=
  ⟨known.intact, known.stack, fun e mem => known.found e (perm.mem_iff.mp mem),
    (perm.map Prod.fst).nodup_iff.mpr known.nodup⟩

end Known

/-! ### What operations learn -/

variable {α β : Type}

/-- The contract of an operation that starts with known objects: with an answer it ends with
known objects again, and with the same stack. -/
def Learns (S : Array Value) (K : List (Handle × HostObject)) (act : HeapM α)
    (R : α → List (Handle × HostObject) → Prop) : Prop :=
  Meets (Known S K) act (fun a h => ∃ K', R a K' ∧ Known S K' h) fun _ => True

namespace Learns

variable {act : HeapM α} {next : α → HeapM β} {R : α → List (Handle × HostObject) → Prop}
  {R' : β → List (Handle × HostObject) → Prop}

theorem bind (first : Learns S K act R) (second : ∀ a K', R a K' → Learns S K' (next a) R') :
    Learns S K (act >>= next) R' :=
  Meets.bind first fun a h ⟨K', learnt, known⟩ => second a K' learnt h known

theorem pure {a : α} (learnt : R a K) : Learns S K (Pure.pure a) R :=
  Meets.pure fun _ known => ⟨K, learnt, known⟩

/-- An operation that ends with the same objects as another one. -/
theorem imp {R₁ : α → List (Handle × HostObject) → Prop} (learns : Learns S K act R)
    (more : ∀ a K', R a K' → R₁ a K') : Learns S K act R₁ :=
  Meets.imp (fun _ known => known) (fun a _ ⟨K', learnt, known⟩ => ⟨K', more a K' learnt, known⟩)
    (fun _ _ => trivial) learns

theorem perm (learns : Learns S K' act R) (perm : K'.Perm K) : Learns S K act R :=
  Meets.imp (fun _ known => known.perm perm) (fun _ _ post => post) (fun _ _ => trivial) learns

/-- What is rooted for a while. -/
theorem rooting (learns : Learns (S.push v) K act R) : Learns S K (rooting v act) R := by
  refine fun h known => ⟨fun a h' run => ?_, fun _ _ _ => trivial⟩
  obtain ⟨answer, state⟩ := Prod.mk.inj run
  obtain ⟨K', learnt, there⟩ := (learns _ (known.push v)).1 a _ (Prod.ext answer rfl)
  refine ⟨K', learnt, ?_⟩
  rw [← state]
  refine ⟨there.intact.congr ⟨rfl, rfl, rfl, rfl, rfl⟩, ?_, there.found, there.nodup⟩
  show (act (h.pushRoot v)).2.stack.pop = S
  rw [there.stack, Array.pop_push]

theorem makeRoom (anchored : Anchored S K) (held : ClassId → Bool) (bytes : Nat) :
    Learns S K (makeRoom held bytes) fun _ K' => K' = K := by
  refine fun h known => ⟨fun _ h' run => ⟨K, rfl, ?_⟩, fun _ _ _ => trivial⟩
  have kept := known.makeRoom anchored held bytes
  rwa [run] at kept

theorem alloc (anchored : Anchored S K) (held : ClassId → Bool) (obj : HostObject) :
    Learns S K (alloc held obj) fun o K' => K' = (o, obj) :: K := by
  refine (makeRoom anchored held obj.size).bind fun _ K' same => ?_
  subst same
  refine fun h known => ⟨fun o h' run => ?_, fun _ _ _ => trivial⟩
  cases run
  exact ⟨_, rfl, known.place obj⟩

/-- A missing property is added at the end. -/
theorem defineOwn (anchored : Anchored S ((o, obj) :: K)) (held : ClassId → Bool)
    (missing : Property.find? obj.properties p.name = none) :
    Learns S ((o, obj) :: K) (defineOwn held o p)
      fun _ K' => K' = (o, withAdded p obj) :: K := by
  unfold Heap.defineOwn
  refine Meets.bind (Q := fun _ => Known S ((o, obj) :: K)) ((meets_reading _).imp
    (fun _ known => known) (fun _ _ both => both.1) fun _ _ => trivial) fun _ => ?_
  refine Meets.bind ((meets_reading _).imp (fun _ known => known) (fun _ _ both => both)
    fun _ _ => trivial) fun old => ?_
  cases old with
  | some old =>
      rintro h ⟨known, there⟩
      have nothing : h.ownProperty o p.name = .ok none := by
        rw [← missing, ownProperty, known.found _ List.mem_cons_self]
        rfl
      rw [nothing] at there
      cases there
  | none =>
      refine Meets.imp (fun _ both => both.1) (fun _ _ post => post) (fun _ _ => trivial)
        ((makeRoom anchored held _).bind fun _ K' same => ?_)
      subst same
      intro h known
      have changed : Heap.change o (Heap.withAdded p) h =
          (.ok (), h.store o.index (withAdded p obj)) := by
        unfold Heap.change
        rw [known.found _ List.mem_cons_self]
      refine ⟨fun _ h' run => ⟨_, rfl, ?_⟩, fun _ _ _ => trivial⟩
      rw [changed] at run
      cases run
      exact known.store _

/-- A new function has its name and runs its host function. -/
theorem allocFunction (anchored : Anchored S K) (held : ClassId → Bool) (name : Text)
    (call : HostFunction) :
    Learns S K (allocFunction held name call) fun f K' =>
      ∃ obj, obj.Runs name call ∧ K' = (f, obj) :: K := by
  intro h known
  unfold Heap.allocFunction
  rw [get_bind_apply]
  refine bind (alloc anchored held (h.functionObject name call)) (fun f K' same => ?_) h known
  subst same
  have inner : Anchored (S.push (.object f)) ((f, h.functionObject name call) :: K) :=
    (anchored.push _).cons (by simp)
  exact (rooting (defineOwn inner held rfl)).bind fun _ K' same => pure ⟨_, ⟨rfl, rfl⟩, same⟩

end Learns

/-- The property is the one that an entry declares, and it holds a function that runs the
callback of the entry. -/
def Declared (K : List (Handle × HostObject)) (entry : StaticFunction) (p : Property) : Prop :=
  ∃ f obj, p = ⟨entry.name, .object f, entry.attributes⟩ ∧ (f, obj) ∈ K ∧
    obj.Runs entry.name entry.call

theorem find?_eq_none_of_names {ps : List Property} {name : Text}
    (new : name ∉ ps.map Property.name) : Property.find? ps name = none := by
  refine List.find?_eq_none.mpr fun p mem same => new ?_
  rw [beq_iff_eq] at same
  exact List.mem_map.mpr ⟨p, mem, same⟩

/-- **Populating adds the declared properties in order**, behind those that are there. -/
theorem Learns.populate (held : ClassId → Bool) (entries : List StaticFunction)
    (anchored : Anchored S ((proto, obj) :: K)) (rooted : .object proto ∈ S.toList)
    (nodup : (entries.map StaticFunction.name).Nodup)
    (new : ∀ e ∈ entries, e.name ∉ obj.properties.map Property.name) :
    Learns S ((proto, obj) :: K) (populate held proto entries) fun _ K' =>
      ∃ added more, K' = (proto, { obj with properties := obj.properties ++ added }) :: more ∧
        List.Forall₂ (Declared more) entries added ∧ ∀ e ∈ K, e ∈ more := by
  induction entries generalizing obj K with
  | nil => exact Learns.pure ⟨[], K, by rw [List.append_nil], .nil, fun _ mem => mem⟩
  | cons entry rest ih =>
      obtain ⟨unlike, nodup⟩ := List.nodup_cons.mp nodup
      refine (allocFunction anchored held _ _).bind fun f K₁ ⟨fobj, runs, same⟩ => ?_
      subst same
      -- The function is rooted until the prototype holds it.
      let p : Property := ⟨entry.name, .object f, entry.attributes⟩
      have inner : Anchored (S.push (.object f)) ((proto, obj) :: (f, fobj) :: K) :=
        ((anchored.push _).cons (by simp)).perm (.swap _ _ _)
      have missing : Property.find? obj.properties entry.name = none :=
        find?_eq_none_of_names (new entry List.mem_cons_self)
      have define : Learns S ((f, fobj) :: (proto, obj) :: K)
          (Heap.rooting (.object f) (Heap.defineOwn held proto p))
          fun _ K' => K' = (proto, withAdded p obj) :: (f, fobj) :: K :=
        (Learns.rooting (defineOwn inner held missing)).perm (.swap _ _ _)
      refine define.bind fun _ K₂ same => ?_
      subst same
      have new' : ∀ e ∈ rest, e.name ∉ (withAdded p obj).properties.map Property.name := by
        intro e mem there
        rw [withAdded, List.map_append, List.mem_append] at there
        rcases there with there | there
        · exact new e (List.mem_cons_of_mem _ mem) there
        · have same : e.name = entry.name := List.mem_singleton.mp there
          exact unlike (same ▸ List.mem_map_of_mem mem)
      -- From here on the prototype, which is rooted, anchors the function.
      refine (ih (anchored.withAdded rooted rfl) nodup new').imp ?_
      rintro _ K' ⟨added, more, rfl, declared, kept⟩
      have first : Declared more entry p :=
        ⟨f, fobj, rfl, kept _ List.mem_cons_self, runs⟩
      refine ⟨p :: added, more, ?_, .cons first declared,
        fun e mem => kept e (List.mem_cons_of_mem _ mem)⟩
      simp [withAdded]

/-! ### New objects -/

theorem anchored_nil : Anchored S [] := fun _ mem => absurd mem List.not_mem_nil

theorem Intact.known (ok : Intact h) : Known h.stack [] h :=
  ⟨ok, rfl, fun _ mem => absurd mem List.not_mem_nil, List.nodup_nil⟩

/-- What is allocated lies under the handle that is answered. -/
theorem known_of_alloc (ok : Intact h) (run : alloc held obj h = (.ok o, h')) :
    Known h.stack [(o, obj)] h' := by
  obtain ⟨K, rfl, known⟩ := ((Learns.alloc anchored_nil held obj) h ok.known).1 o h' run
  exact known

/-- The object is as it was placed but for the properties that the entries declare: one for
each, in order, with a function that runs the callback of the entry. -/
def Populated (h : Heap) (proto : Handle) (start : HostObject)
    (entries : List StaticFunction) : Prop :=
  ∃ added, h.object proto = .ok { start with properties := added } ∧
    List.Forall₂ (fun (entry : StaticFunction) p => ∃ f obj,
      p = ⟨entry.name, .object f, entry.attributes⟩ ∧ h.object f = .ok obj ∧
        obj.Runs entry.name entry.call) entries added

/-- **A new prototype holds the static functions of its class and nothing else.** -/
theorem populated_buildPrototype (ok : Intact h)
    (run : buildPrototype held d parent h = (.ok proto, h')) :
    Populated h' proto (.ordinary (some parent)) d.firstFunctions := by
  have build : Learns h.stack [] (buildPrototype held d parent) fun proto K' =>
      ∃ added more, K' = (proto, { HostObject.ordinary (some parent) with properties := added }) ::
        more ∧ List.Forall₂ (Declared more) d.firstFunctions added := by
    refine (Learns.alloc anchored_nil held _).bind fun proto K same => ?_
    subst same
    have rooted : .object proto ∈ (h.stack.push (.object proto)).toList := by simp
    have new : ∀ e ∈ d.firstFunctions,
        e.name ∉ (HostObject.ordinary (some parent)).properties.map Property.name :=
      fun _ _ => List.not_mem_nil
    have filled := Learns.populate held d.firstFunctions (anchored_nil.cons rooted) rooted
      d.firsts_firstFunctions.nodup new
    refine filled.rooting.bind fun _ K ⟨added, more, same, declared, _⟩ => ?_
    have recorded : Learns h.stack K (modify (recordPrototype d.id proto) : HeapM Unit)
        fun _ K' => K' = K :=
      Meets.modify fun _ known => ⟨K, rfl, known.beside ⟨rfl, rfl, rfl, rfl, rfl⟩ rfl⟩
    refine recorded.bind fun _ K' same' => Learns.pure ⟨added, more, ?_, declared⟩
    rw [same', same]
    rfl
  obtain ⟨K, ⟨added, more, rfl, declared⟩, known⟩ :=
    (build h ok.known).1 proto h' run
  refine ⟨added, known.found _ List.mem_cons_self, declared.imp ?_⟩
  rintro entry p ⟨f, obj, rfl, mem, runs⟩
  exact ⟨f, obj, rfl, known.found _ (List.mem_cons_of_mem _ mem), runs⟩

end Heap

end HostObjects
