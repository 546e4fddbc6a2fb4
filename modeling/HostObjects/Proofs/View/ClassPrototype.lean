import HostObjects.Proofs.Heap.SharedPrototype
import HostObjects.Proofs.View.Lifecycle
import HostObjects.View.Call

/-!
# The uses of a shared prototype

Three operations of a view need the shared prototype of a class: asking for it, making an
object of the class and making a constructor.  All of them get it from `prototypeOf`, so
they get the same one (`Gives`), and the heap keeps it as long as the class is in use
(`class_prototype_lasts`).

What the prototype holds when it is built is said of the properties and of what happens
when the functions in them are called (`Heap.Declares`).
-/

namespace HostObjects

open Heap

variable {σ α : Type} {host : Host σ} {s s' : Session σ} {c : Class} {proto f o : Handle}
  {h₁ : Heap}

/-! ### What a view makes -/

/-- An operation that may collect answers what it answers in the heap of the session, and
dead objects are let go after it. -/
theorem of_allocating {act : (ClassId → Bool) → HeapM α} {a : α}
    (run : Action.allocating host act s = (.ok a, s')) :
    ∃ h, act (Action.heldOutside host s) s.heap = (.ok a, h) ∧ SameTable h s'.heap ∧
      s'.heap.stack = h.stack := by
  rw [allocating_apply, settle_eq] at run
  obtain ⟨answer, rfl⟩ := Prod.mk.inj run
  exact ⟨_, Prod.ext answer rfl, ⟨rfl, rfl, rfl, rfl, rfl⟩, rfl⟩

/-- What an operation keeps of a heap is kept of the heap of the session, if the dead
objects do not matter. -/
theorem preserves_allocating {I : Heap → Prop} {act : (ClassId → Bool) → HeapM α}
    (settled : ∀ h, I h → I { h with reaped := [] }) (keep : ∀ held, Preserves I (act held)) :
    Preserves (fun s => I s.heap) (Action.allocating host act) := by
  refine Preserves.of_state fun s hs => ?_
  have after := (keep (Action.heldOutside host s)).state hs
  rw [allocating_apply, settle_eq]
  exact settled _ after

/-- Whatever needs the prototype of a class in a session gets the same one. -/
structure Gives (host : Host σ) (c : Class) (proto : Handle) (s : Session σ) : Prop where
  /-- The prototype of the class. -/
  classPrototype : (View.classPrototype host c s).1 = .ok (some proto)
  /-- Objects of the class start with it, and are set up after that. -/
  makeObject : ∀ data o s', View.makeObject host (some c) data s = (.ok o, s') →
    ∃ s₁, View.makeInstance host c data s = (.ok o, s₁) ∧
      s₁.heap.prototype o = .ok (some proto)
  /-- Constructors of the class have it as a property. -/
  makeConstructor : ∀ construct f s',
    View.makeConstructor host (some c) construct s = (.ok f, s') →
    s'.heap.ownProperty f View.prototypeKey =
      .ok (some ⟨View.prototypeKey, .object proto, .constructorPrototype⟩)

theorem intact_of_prototypeOf {held : ClassId → Bool} {h : Heap} (ok : Intact h)
    (run : prototypeOf held c.chain h = (.ok proto, h₁)) : Intact h₁ := by
  have built : Intact (prototypeOf held c.chain h).2 := ok.run held (.prototypeOf c)
  rwa [run] at built

/-- An instance is made with the prototype that is answered for its class, and nothing else. -/
theorem object_makeInstance (ok : Intact s.heap) {data : Option PrivateData}
    (made : View.makeInstance host c data s = (.ok o, s')) :
    ∃ proto h₁, prototypeOf (Action.heldOutside host s) c.chain s.heap = (.ok proto, h₁) ∧
      s'.heap.object o = .ok ⟨some proto, some c, .ordinary, [], data⟩ := by
  unfold View.makeInstance View.orDiscard at made
  rw [tryCatch_apply] at made
  split at made
  · next a t done =>
      cases made
      obtain ⟨proto, between, asked, placed⟩ := of_bind_ok done
      obtain ⟨h, answer, same, -⟩ := of_allocating asked
      obtain ⟨h', alloc, same', -⟩ := of_allocating placed
      have intact := (intact_of_prototypeOf ok answer).congr same
      have found := (known_of_alloc intact alloc).found _ List.mem_cons_self
      exact ⟨proto, h, answer, same'.object ▸ found⟩
  · cases made

/-- An instance starts with the prototype that is answered for its class. -/
theorem prototype_makeInstance (ok : Intact s.heap)
    (run : prototypeOf (Action.heldOutside host s) c.chain s.heap = (.ok proto, h₁))
    {data : Option PrivateData} (made : View.makeInstance host c data s = (.ok o, s')) :
    s'.heap.prototype o = .ok (some proto) := by
  obtain ⟨proto', _, answer, found⟩ := object_makeInstance ok made
  cases run.symm.trans answer
  exact prototype_eq_ok_iff.mpr ⟨_, found, rfl⟩

/-- A constructor is made with the prototype that is asked for first as its only property. -/
theorem object_constructed {made : Option Class} {t : Session σ} (ok : Intact s.heap)
    (asked : View.constructedPrototype host made s = (.ok proto, t))
    {construct : Option HostFunction}
    (run : View.makeConstructor host made construct s = (.ok f, s')) :
    ∃ link, s'.heap.object f = .ok ⟨some link, none, .constructor made construct,
      [⟨View.prototypeKey, .object proto, .constructorPrototype⟩], none⟩ := by
  have sturdy := (enduring_within host s.heap).toSturdy
  have within := (keeps_constructedPrototype sturdy.tender made).state .refl
  rw [asked] at within
  unfold View.makeConstructor at run
  rw [bind_apply, asked] at run
  obtain ⟨f', s₂, placed, run⟩ := of_bind_ok run
  obtain ⟨h₂, alloc, same₂, stack₂⟩ := of_allocating placed
  rw [get_bind_apply] at alloc
  obtain ⟨⟨⟩, s₃, pushed, run⟩ := of_bind_ok run
  obtain ⟨⟨⟩, s₄, defined, run⟩ := of_bind_ok run
  obtain ⟨h₄, define, same₄, -⟩ := of_allocating defined
  cases run
  -- The constructor is rooted while its property is defined.
  cases pushed
  have known := ((known_of_alloc (within.intact ok) alloc).beside same₂ stack₂).push (.object f)
  have rooted : .object f ∈ (t.heap.stack.push (.object f)).toList := by simp
  obtain ⟨K, rfl, there⟩ :=
    (Learns.defineOwn (anchored_nil.cons rooted) _ rfl _ known).1 () h₄ define
  rw [same₄.object]
  exact ⟨_, there.found _ List.mem_cons_self⟩

/-- A constructor is made with the prototype that is answered for its class as its only
property. -/
theorem object_makeConstructor (ok : Intact s.heap)
    (run : prototypeOf (Action.heldOutside host s) c.chain s.heap = (.ok proto, h₁))
    {construct : Option HostFunction}
    (made : View.makeConstructor host (some c) construct s = (.ok f, s')) :
    ∃ link, s'.heap.object f = .ok ⟨some link, none, .constructor (some c) construct,
      [⟨View.prototypeKey, .object proto, .constructorPrototype⟩], none⟩ := by
  have whole := made
  unfold View.makeConstructor View.constructedPrototype at made
  obtain ⟨_, _, asked, -⟩ := of_bind_ok made
  obtain ⟨_, answer, -⟩ := of_allocating asked
  cases run.symm.trans answer
  have asked : View.constructedPrototype host (some c) s = _ := asked
  exact object_constructed ok asked whole

/-- A constructor has the prototype that is answered for its class. -/
theorem ownProperty_makeConstructor (ok : Intact s.heap)
    (run : prototypeOf (Action.heldOutside host s) c.chain s.heap = (.ok proto, h₁))
    {construct : Option HostFunction}
    (made : View.makeConstructor host (some c) construct s = (.ok f, s')) :
    s'.heap.ownProperty f View.prototypeKey =
      .ok (some ⟨View.prototypeKey, .object proto, .constructorPrototype⟩) := by
  obtain ⟨link, found⟩ := object_makeConstructor ok run made
  rw [Heap.ownProperty, found]
  rfl

/-- An action on operands runs with them rooted; the stack is cut back after it, and what is
given back is rooted. -/
theorem withOperands_apply (valid : s.heap.isValid o = true) (operands : List Value)
    (returned : α → Option Value) (body : Action σ α) :
    Action.withOperands o operands returned body s =
      match body (s.withHeap (s.heap.rootAll operands)) with
      | (.ok a, t) =>
        (.ok a, t.withHeap ((t.heap.cutStack s.heap.stack.size).withResult (returned a)))
      | (.error e, t) => (.error e, t.withHeap (t.heap.cutStack s.heap.stack.size)) := by
  have checked : s.heap.check o = .ok () := check_eq_ok_iff.mpr valid
  have scope : Action.inScope (do View.rootAll operands; body) s =
      ((body (s.withHeap (s.heap.rootAll operands))).1,
        (body (s.withHeap (s.heap.rootAll operands))).2.withHeap
          ((body (s.withHeap (s.heap.rootAll operands))).2.heap.cutStack s.heap.stack.size)) := by
    have run : (View.rootAll operands >>= fun _ => body) s =
        body (s.withHeap (s.heap.rootAll operands)) := by
      rw [bind_apply, rootAll_apply]
    rw [← run]
    rfl
  unfold Action.withOperands
  rw [bind_apply]
  simp only [Action.reading, checked]
  rw [bind_apply, scope]
  rcases body (s.withHeap (s.heap.rootAll operands)) with ⟨e | a, t⟩
  · rfl
  · dsimp only
    rw [bind_apply, rootResult_apply]
    rfl

/-- An action on operands answers what it answers with them rooted. -/
theorem withOperands_fst (valid : s.heap.isValid o = true) (operands : List Value)
    (returned : α → Option Value) (body : Action σ α) :
    (Action.withOperands o operands returned body s).1 =
      (body (s.withHeap (s.heap.rootAll operands))).1 := by
  rw [withOperands_apply valid]
  rcases body (s.withHeap (s.heap.rootAll operands)) with ⟨_ | _, _⟩ <;> rfl

/-- **A call of a function without a class asks its host function**, with the operands
rooted, and answers what that answers. -/
theorem call_of_runs {obj : HostObject} {name : Text} {g : HostFunction}
    (found : s.heap.object f = .ok obj) (runs : obj.Runs name g) (this : Value)
    (args : List Value) :
    (View.call host f this args s).1 =
      (host.answer g (.call f this args)
        (s.withHeap (s.heap.rootAll (.object f :: this :: args)))).1 := by
  have form : View.call host f this args = _ :=
    (Invocation.call f this args).perform_eq_withOperands rfl
  rw [form, withOperands_fst (isValid_of_object found)]
  -- Rooting operands leaves the objects alone.
  have there : (s.heap.rootAll (.object f :: this :: args)).object f = .ok obj := found
  show (View.byClass f (View.callResolved host f this args)
    (s.withHeap (s.heap.rootAll (.object f :: this :: args)))).1 = _
  generalize s.heap.rootAll (.object f :: this :: args) = h at there
  have plain : h.classOf f = .ok none := by
    rw [Heap.classOf, there]
    exact congrArg Except.ok runs.plain
  have behaves : (h.object f).map HostObject.behaviour = .ok (.function name g) := by
    rw [there]
    exact congrArg Except.ok runs.behaviour
  unfold View.byClass
  rw [bind_apply]
  simp only [Action.reading, Session.withHeap, plain]
  show (View.callResolved host f this args none (s.withHeap h)).1 = _
  unfold View.callResolved View.behaviour
  dsimp only [View.classCallback?, Option.bind]
  rw [bind_apply]
  simp only [Action.reading, Session.withHeap, behaves]

/-- **All uses of a prototype go by `prototypeOf`.** -/
theorem gives_of_prototypeOf (ok : Intact s.heap) (automatic : c.own.automatic = true)
    (run : prototypeOf (Action.heldOutside host s) c.chain s.heap = (.ok proto, h₁)) :
    Gives host c proto s where
  classPrototype := by
    unfold View.classPrototype
    rw [if_pos automatic, bind_apply, allocating_apply, run]
    rfl
  makeObject data o s' made := by
    rcases done : View.makeInstance host c data s with ⟨e | o', s₁⟩
    · rw [makeObject_of_failed done] at made
      cases made
    · rw [makeObject_of_makeInstance done] at made
      obtain ⟨answer, -⟩ := Prod.mk.inj made
      -- Setting up decides whether there is an answer, not which object it is.
      have same : o' = o := by
        cases setUp : (View.setUp host o' c (s₁.rooted o')).1 with
        | error e =>
            rw [setUp] at answer
            cases answer
        | ok _ =>
            rw [setUp] at answer
            exact Except.ok.inj answer
      exact ⟨s₁, same ▸ rfl, same ▸ prototype_makeInstance ok run done⟩
  makeConstructor construct f s' made := ownProperty_makeConstructor ok run made

/-! ### The prototype of a class -/

/-- In sessions with the heap, a call of the object asks the host function. -/
def Heap.Calls (h : Heap) (f : Handle) (g : HostFunction) : Prop :=
  ∀ (σ : Type) (host : Host σ) (s : Session σ) (this : Value) (args : List Value),
    s.heap = h → (View.call host f this args s).1 =
      (host.answer g (.call f this args)
        (s.withHeap (h.rootAll (.object f :: this :: args)))).1

theorem Heap.calls_of_runs {h : Heap} {obj : HostObject} {name : Text} {g : HostFunction}
    (found : h.object f = .ok obj) (runs : obj.Runs name g) : h.Calls f g := by
  intro σ host s this args same
  rw [← same] at found ⊢
  exact call_of_runs found runs this args

/-- The object has no class, and its properties are those that the entries declare: one for
each, in order, with a function that asks the callback of the entry. -/
def Heap.Declares (h : Heap) (proto : Handle) (entries : List StaticFunction) : Prop :=
  ∃ parent added, h.object proto = .ok { HostObject.ordinary (some parent) with
      properties := added } ∧
    List.Forall₂ (fun (entry : StaticFunction) p => ∃ f,
      p = ⟨entry.name, .object f, entry.attributes⟩ ∧ h.Calls f entry.call) entries added

theorem Heap.Populated.declares {h : Heap} {parent : Handle} {entries : List StaticFunction}
    (populated : h.Populated proto (.ordinary (some parent)) entries) :
    h.Declares proto entries := by
  obtain ⟨added, found, declared⟩ := populated
  refine ⟨parent, added, found, declared.imp ?_⟩
  rintro entry p ⟨f, obj, rfl, there, runs⟩
  exact ⟨f, rfl, calls_of_runs there runs⟩

/-- A prototype that was not there is built with the static functions of its class. -/
theorem declares_of_prototypeOf {h : Heap} {held : ClassId → Bool} (ok : Intact h)
    (automatic : c.own.automatic = true) (missing : h.classPrototype? c.id = none)
    (run : prototypeOf held c.chain h = (.ok proto, h₁)) :
    h₁.Declares proto c.own.firstFunctions := by
  obtain ⟨parent, between, above, built⟩ := build_of_prototypeOf automatic missing run
  have intact : Intact (prototypeOf held c.ancestors h).2 :=
    (stable_intact.steady.classless.prototypeOf held #[] c.ancestors).state ok
  rw [above] at intact
  exact (populated_buildPrototype intact built).declares

/-- **A class has one prototype in a heap.**  The first use of a class builds the prototype,
with the first static function of each name as its properties.  As long as the class is in
use after that, the prototype stays, no other class has the same one, and every use of the
class gets it.  If the build fails, nothing is recorded for the class.

A use of a subclass builds the prototype of the class first, as if that had been used
before.  No class is among its own ancestors, and whoever uses a class holds it and through it
its ancestors (`others`, `inUse`). -/
theorem class_prototype_lasts (id : HeapId) (limits : Limits) (mode : CollectionMode)
    (before : List Turn) (allowed : AllAllowed (new id limits mode) before) (c : Class)
    (automatic : c.own.automatic = true) (others : ∀ d ∈ c.ancestors, d.id ≠ c.id)
    (held : ClassId → Bool) (inUse : ∀ d ∈ c.chain, held d.id = true) :
    let h := (new id limits mode).after before
    match prototypeOf held c.chain h with
    | (.error _, h₁) => h₁.classPrototype? c.id = none
    | (.ok proto, h₁) =>
      (h.classPrototype? c.id = none →
        ∃ entries, c.own.Firsts entries ∧ h₁.Declares proto entries) ∧
      (∀ (σ : Type) (host : Host σ) (s : Session σ), s.heap = h →
        Action.heldOutside host s = held → Gives host c proto s) ∧
      (∀ d : Descriptor, d.automatic = true → (∀ a ∈ c.chain, a.id ≠ d.id) →
        h.classPrototype? d.id = none →
          prototypeOf held (d :: c.chain) h = prototypeOf held (d :: c.chain) h₁) ∧
      ∀ later, AllAllowed h₁ later → UsedAlong c.id h₁ later → ∀ h' ∈ states h₁ later,
        h'.isValid proto = true ∧
        (∀ c' : Class, c'.id ≠ c.id → h'.instancePrototype? c' ≠ some proto) ∧
        ∀ (σ : Type) (host : Host σ) (s : Session σ), s.heap = h' → Gives host c proto s := by
  intro h
  obtain ⟨ok, distinct⟩ := distinct_after (chained_new id limits mode)
    (distinct_new id limits mode) allowed
  rcases run : prototypeOf held c.chain h with ⟨e | proto, h₁⟩
  · exact classPrototype?_of_failed automatic others run
  have built : Chained h₁ ∧ Distinct h₁ := by
    have both := (preserves_prototypeOf_distinct inUse).state ⟨ok, distinct⟩
    rwa [show prototypeOf held c.chain ((new id limits mode).after before) = _ from run] at both
  have cached : h₁.classPrototype? c.id = some proto := by
    have answer := instancePrototype?_prototypeOf run
    rwa [instancePrototype?, if_pos automatic] at answer
  refine ⟨fun missing => ⟨_, c.own.firsts_firstFunctions,
      declares_of_prototypeOf ok.intact automatic missing run⟩, ?_,
    fun d auto apart missing => prototypeOf_of_parent auto missing automatic apart run, ?_⟩
  · rintro σ host s heap rfl
    exact gives_of_prototypeOf (heap ▸ ok.intact) automatic (heap ▸ run)
  · -- Later uses of the class find the prototype recorded.
    intro later allowed' used h' mem
    obtain ⟨ok', distinct', cached'⟩ :=
      classPrototype?_states built.1 built.2 cached allowed' used h' mem
    refine ⟨ok'.shared_valid _ _ (mem_of_classPrototype? cached'),
      fun c' other => distinct'.instancePrototype?_ne cached' other, ?_⟩
    rintro σ host s rfl
    exact gives_of_prototypeOf ok'.intact automatic (prototypeOf_cached automatic cached')

/-- A class with three static functions, two of them of one name. -/
def toolClass : Class :=
  ⟨{ id := ⟨0⟩, version := 0, name := Text.ofString "Tool", automatic := true, values := []
     functions := [⟨Text.ofString "a", .none, ⟨0⟩⟩, ⟨Text.ofString "b", .none, ⟨1⟩⟩,
       ⟨Text.ofString "a", .none, ⟨2⟩⟩]
     callbacks := fun _ => none }, []⟩

/-- A heap in which the class was used. -/
def toolHeap : Heap :=
  (prototypeOf (fun _ => true) toolClass.chain (new ⟨0⟩ .standard .synchronous)).2

/-- An instance is rooted, and then the host lets the class go and collects. -/
def keptByInstance : List Turn :=
  [⟨fun _ => true, .allocInstance toolClass none ⟨⟨0⟩, 2, 0⟩⟩,
    ⟨fun _ => true, .addRoot (.object ⟨⟨0⟩, 5, 0⟩)⟩, ⟨fun _ => false, .collect⟩]

/-- There the instance keeps the prototype of the class. -/
theorem class_prototype_lasts_keptByInstance :
    (∃ entries, toolClass.own.Firsts entries ∧ toolHeap.Declares ⟨⟨0⟩, 2, 0⟩ entries) ∧
    (toolHeap.after keptByInstance).isValid ⟨⟨0⟩, 2, 0⟩ = true ∧
    ∀ (σ : Type) (host : Host σ) (s : Session σ), s.heap = toolHeap.after keptByInstance →
      Gives host toolClass ⟨⟨0⟩, 2, 0⟩ s := by
  have run : prototypeOf (fun _ => true) toolClass.chain (new ⟨0⟩ .standard .synchronous) =
      (.ok ⟨⟨0⟩, 2, 0⟩, toolHeap) :=
    Prod.ext (by decide +kernel) (by rw [toolHeap])
  have allowed : AllAllowed toolHeap keptByInstance :=
    ⟨⟨fun _ _ => rfl, by decide +kernel⟩, trivial, trivial, trivial⟩
  have used : UsedAlong toolClass.id toolHeap keptByInstance :=
    ⟨trivial, rfl, trivial, rfl, trivial, by decide +kernel, trivial⟩
  have last : toolHeap.after keptByInstance ∈ states toolHeap keptByInstance := by
    iterate 3 apply List.mem_cons_of_mem
    exact List.mem_cons_self
  have alone : ∀ d ∈ toolClass.ancestors, d.id ≠ toolClass.id :=
    fun _ mem => absurd mem List.not_mem_nil
  have lasts := class_prototype_lasts ⟨0⟩ .standard .synchronous [] trivial toolClass rfl alone
    fun _ => true
  rw [show (new ⟨0⟩ .standard .synchronous).after [] = new ⟨0⟩ .standard .synchronous from rfl]
    at lasts
  dsimp only at lasts
  rw [run] at lasts
  obtain ⟨declares, -, -, stays⟩ := lasts fun _ _ => rfl
  obtain ⟨valid, -, gives⟩ := stays keptByInstance allowed used _ last
  exact ⟨declares rfl, valid, gives⟩

end HostObjects
