import HostObjects.Proofs.View.Balance
import HostObjects.Proofs.View.Lifecycle

/-!
# What making an object leaves rooted

What a view makes is rooted on top of the stack.  A function or a plain object is then the
only entry that is new, and there is none if it is not made.  A constructor and an object
of a class are made in two parts: the object is allocated and rooted, and then something
is done with it that may fail.  If the first part fails the stack is as it was; if it does
not, the object is on top whatever comes of the second (`Roots`).

The second part of a constructor is its `prototype` property, and the stack stays as it
is.  The second part of an object of a class are its set-up callbacks, and they run in the
view that makes it: what they make, or root, stays above the object until the view or the
scope around it ends (`View.leftBySetUp`).  So neither is alone on top in general, and
neither is gone where it was rooted before the failure (`set_up_objects_stay`).
-/

namespace HostObjects

open Heap

variable {σ α β : Type} {host : Host σ} {S : Array Value} {c : Class}

/-- **An action roots what its first part makes.**  It fails where the first part does, and
then the stack is as it was.  What the first part makes is on top of that, with what is
left above it, whether the rest of the action fails or not; and if it does not, the action
answers with what the first part has made. -/
def Roots (S : Array Value) (act : Action σ Handle) (first : Action σ β) (made : β → Handle)
    (above : β → Session σ → Array Value) : Prop :=
  ∀ s, HasStack S s →
    match first s with
    | (.error e, t) => act s = (.error e, t) ∧ HasStack S t
    | (.ok b, t) =>
      HasStack (S.push (.object (made b)) ++ above b t) (act s).2 ∧
        ∀ o, (act s).1 = .ok o → o = made b

section Roots

variable {act : Action σ Handle} {first : Action σ β} {made : β → Handle}
  {above : β → Session σ → Array Value}

theorem Roots.of_ok (roots : Roots S act first made above) {s : Session σ} {b : β}
    (hs : HasStack S s) (run : (first s).1 = .ok b) :
    HasStack (S.push (.object (made b)) ++ above b (first s).2) (act s).2 := by
  have all := roots s hs
  rcases whole : first s with ⟨e | b', t⟩
  · rw [whole] at run
    cases run
  · rw [whole] at run all
    cases run
    exact all.1

/-- The first part leaves the stack as it is, and the rest roots what it has made. -/
theorem roots_bind (keep : Preserves (HasStack S) first) {next : β → Action σ Handle}
    (rest : ∀ b, Meets (HasStack S) (next b)
      (fun o s => HasStack (S.push (.object (made b))) s ∧ o = made b)
      (HasStack (S.push (.object (made b))))) :
    Roots S (first >>= next) first made fun _ _ => #[] := by
  intro s hs
  have after := keep.state hs
  rcases run : first s with ⟨e | b, t⟩
  · rw [run] at after
    exact ⟨by rw [bind_apply, run], after⟩
  · rw [run] at after
    obtain ⟨answered, failed⟩ := rest b t after
    have all : (first >>= next) s = next b t := by rw [bind_apply, run]
    dsimp only
    rw [all, Array.append_empty]
    rcases last : next b t with ⟨e | o, u⟩
    · exact ⟨failed e u last, nofun⟩
    · obtain ⟨stack, rfl⟩ := answered o u last
      refine ⟨stack, fun o' same => ?_⟩
      cases same
      rfl

end Roots

/-! ### Commands and the stack -/

/-- A command that does not move the stack leaves it as it is. -/
theorem Heap.stack_run (held : ClassId → Bool) (h : Heap) {c : Command}
    (still : c.movesStack = false) : (c.run held h).stack = h.stack := by
  have extended : h.Extends #[] (c.run held h) :=
    Extends.run Array.append_empty.symm held still
  exact extended.trans Array.append_empty

instance (S : Array Value) (s : Session σ) : Decidable (HasStack S s) :=
  inferInstanceAs (Decidable (s.heap.stack = S))

theorem settle_stack (host : Host σ) (s : Session σ) :
    (Action.settle host s).heap.stack = s.heap.stack := by
  unfold Action.settle
  dsimp only
  split <;> rfl

/-- The stack lasts through whatever leaves it alone. -/
theorem sturdy_hasStack (host : Host σ) (S : Array Value) : Sturdy host (HasStack S) where
  allocating s c allocates hs :=
    (settle_stack host _).trans ((stack_run _ s.heap (c.still_of_allocates allocates)).trans hs)
  editing s _ _ _ still hs := (stack_run _ s.heap still).trans hs
  discard _ _ hs := hs
  holding _ _ hs := hs

theorem meets_push {E : Session σ → Prop} (v : Value) :
    Meets (HasStack S) (Action.push v : Action σ Unit) (fun _ => HasStack (S.push v)) E := by
  rintro s rfl
  refine ⟨fun _ t run => ?_, fun e t run => ?_⟩ <;> cases run
  rfl

/-- What is made without changing the stack, and then rooted, is on top of it. -/
theorem meets_rooted {act : Action σ Handle} (keep : Preserves (HasStack S) act) :
    Meets (HasStack S) (do let o ← act; Action.push (.object o); return o)
      (fun o => HasStack (S.push (.object o))) (HasStack S) :=
  Meets.bind keep fun _ => (meets_push _).bind fun _ => Meets.pure fun _ hs => hs

/-! ### Functions, plain objects and constructors -/

theorem meets_makeFunction (name : Text) (call : HostFunction) :
    Meets (HasStack S) (View.makeFunction host name call)
      (fun f => HasStack (S.push (.object f))) (HasStack S) :=
  meets_rooted (keeps_allocFunction (sturdy_hasStack host S).tender name call)

theorem meets_makePlain :
    Meets (HasStack S) (View.makePlain host) (fun o => HasStack (S.push (.object o)))
      (HasStack S) :=
  meets_rooted (keeps_allocPlain (sturdy_hasStack host S).tender)

theorem meets_orDiscard {act : Action σ α} {P E : Session σ → Prop} {Q : α → Session σ → Prop}
    (data : Option PrivateData) (meets : Meets P act Q E)
    (dropped : Preserves E (Action.discarding host data)) :
    Meets P (View.orDiscard host data act) Q E := by
  intro s hs
  obtain ⟨answered, failed⟩ := meets s hs
  unfold View.orDiscard
  rw [tryCatch_apply]
  rcases run : act s with ⟨e | a, s'⟩
  · refine Meets.bind dropped (fun _ => Meets.throw fun _ hs => hs) s' (failed e s' run)
  · refine ⟨fun b t eq => ?_, fun e t eq => ?_⟩ <;> cases eq
    exact answered a s' run

/-- Private data that a plain object cannot keep is dropped. -/
theorem meets_makeObject_plain (data : Option PrivateData) :
    Meets (HasStack S) (View.makeObject host none data)
      (fun o => HasStack (S.push (.object o))) (HasStack S) := by
  refine meets_orDiscard data (meets_makePlain.bind fun o => ?_)
    (keeps_discarding (sturdy_hasStack host S).tender data)
  refine Meets.bind (Q := fun _ => HasStack (S.push (.object o))) (fun s hs => ⟨?_, nofun⟩)
    fun _ => Meets.pure fun _ hs => hs
  rintro _ t ⟨⟩
  exact hs

/-- Allocates a constructor, not rooted yet, and answers with the prototype of its instances as
well. -/
def View.allocConstructor (host : Host σ) (c : Option Class) (construct : Option HostFunction) :
    Action σ (Handle × Handle) := do
  let proto ← View.constructedPrototype host c
  let f ← Action.allocating host fun held => do
    let h ← get
    Heap.alloc held ⟨some h.functionPrototype, none, .constructor c construct, [], none⟩
  return (proto, f)

/-- A constructor is allocated, rooted, and given its `prototype` property. -/
theorem makeConstructor_eq (c : Option Class) (construct : Option HostFunction) :
    View.makeConstructor host c construct =
      View.allocConstructor host c construct >>= fun (proto, f) => do
        Action.push (.object f)
        Action.allocating host fun held =>
          Heap.defineOwn held f ⟨View.prototypeKey, .object proto, .constructorPrototype⟩
        return f := by
  simp only [View.makeConstructor, View.allocConstructor, bind_assoc, pure_bind]

theorem keeps_allocConstructor (c : Option Class) (construct : Option HostFunction) :
    Preserves (HasStack S) (View.allocConstructor host c construct) := by
  have sturdy := sturdy_hasStack host S
  refine (keeps_constructedPrototype sturdy.tender c).bind fun _ => Preserves.bind ?_ fun _ =>
    Preserves.pure _
  refine keeps_allocating fun s hs => ?_
  rw [get_bind_apply]
  exact sturdy.allocating s (.allocConstructor c construct) rfl hs

/-- A constructor that was allocated is alone on top, with its `prototype` property or
without. -/
theorem roots_makeConstructor (c : Option Class) (construct : Option HostFunction) :
    Roots S (View.makeConstructor host c construct) (View.allocConstructor host c construct)
      Prod.snd fun _ _ => #[] := by
  rw [makeConstructor_eq]
  refine roots_bind (keeps_allocConstructor c construct) fun (proto, f) => ?_
  refine (meets_push (.object f)).bind fun _ => ?_
  exact Meets.bind (keeps_defineOwn (sturdy_hasStack host (S.push (.object f))) f _) fun _ =>
    Meets.pure fun _ hs => ⟨hs, rfl⟩

/-! ### Objects of a class -/

/-- What an action leaves on the stack, above what it finds there. -/
def Action.left (act : Action σ α) (s : Session σ) : Array Value :=
  (act s).2.heap.stack.extract s.heap.stack.size

theorem Action.Above.stack_eq {act : Action σ α} (above : act.Above) (s : Session σ) :
    (act s).2.heap.stack = s.heap.stack ++ act.left s := by
  obtain ⟨top, extended⟩ := (above s).stack
  have stack : (act s).2.heap.stack = s.heap.stack ++ top := extended
  rw [Action.left, stack]
  simp

/-- What the set-up callbacks of a class chain leave on the stack, each above what the one
before has left, up to the first that fails. -/
def View.leftBySetUp (host : Host σ) (o : Handle) : List Descriptor → Session σ → Array Value
  | [], _ => #[]
  | d :: ds, s =>
    match d.callbacks .setUp with
    | none => leftBySetUp host o ds s
    | some f =>
      (host.answer f (.setUp o)).left s ++
        match host.answer f (.setUp o) s with
        | (.ok (), t) => leftBySetUp host o ds t
        | (.error _, _) => #[]

/-- **What set-up callbacks leave on the stack stays there**, above what was on it. -/
theorem stack_setUpAlong (lawful : host.Lawful) (o : Handle) (ds : List Descriptor)
    (s : Session σ) :
    (View.setUpAlong host o ds s).2.heap.stack = s.heap.stack ++ View.leftBySetUp host o ds s := by
  induction ds generalizing s with
  | nil => exact Array.append_empty.symm
  | cons d ds ih =>
      unfold View.setUpAlong View.leftBySetUp
      cases d.callbacks .setUp with
      | none => exact ih s
      | some f =>
          have first := (lawful f (.setUp o)).stack_eq s
          dsimp only
          rw [bind_apply, ← Array.append_assoc, ← first]
          rcases host.answer f (.setUp o) s with ⟨e | ⟨⟩, t⟩
          · exact Array.append_empty.symm
          · exact ih t

/-- The set-up callbacks of a class leave the stack as they find it. -/
def Class.SetsUpBalanced (host : Host σ) (c : Class) : Prop :=
  ∀ d ∈ c.chain, ∀ f, d.callbacks .setUp = some f →
    ∀ o T, Preserves (HasStack T) (host.answer f (.setUp o))

theorem hasStack_setUpAlong {o : Handle} {ds : List Descriptor}
    (balanced : ∀ d ∈ ds, ∀ f, d.callbacks .setUp = some f →
      Preserves (HasStack S) (host.answer f (.setUp o))) :
    Preserves (HasStack S) (View.setUpAlong host o ds) := by
  induction ds with
  | nil => exact Preserves.pure _
  | cons d ds ih =>
      have rest := ih fun e mem => balanced e (List.mem_cons_of_mem _ mem)
      unfold View.setUpAlong
      cases own : d.callbacks .setUp with
      | none => exact rest
      | some f => exact (balanced d List.mem_cons_self f own).bind fun _ => rest

/-- An object that was allocated is on top with whatever its set-up leaves above it. -/
theorem roots_makeObject (data : Option PrivateData) {above : Handle → Session σ → Array Value}
    (setUp : ∀ o s, HasStack (S.push (.object o)) (s.rooted o) →
      HasStack (S.push (.object o) ++ above o s) (View.setUp host o c (s.rooted o)).2) :
    Roots S (View.makeObject host (some c) data) (View.makeInstance host c data) (fun o => o)
      above := by
  intro s hs
  have made := (keeps_makeInstance (sturdy_hasStack host S).tender c data).state hs
  rcases run : View.makeInstance host c data s with ⟨e | o, t⟩
  · rw [run] at made
    exact ⟨makeObject_of_failed run, made⟩
  · rw [run] at made
    have stack : t.heap.stack = S := made
    have rooted : HasStack (S.push (.object o)) (t.rooted o) := by
      show t.heap.stack.push (.object o) = _
      rw [stack]
    dsimp only
    rw [makeObject_of_makeInstance run]
    refine ⟨setUp o t rooted, fun o' same => ?_⟩
    dsimp only at same
    rcases answer : (View.setUp host o c (t.rooted o)).1 with e | ⟨⟩
    · rw [answer] at same
      cases same
    · rw [answer] at same
      cases same
      rfl

/-- **What a view makes is rooted on top of what was rooted before.**  A function or a plain
object is the one new entry on the stack, and there is none if it is not made.

A constructor that is allocated is the one new entry as well, also if there is no room for
its `prototype` property; there is none if it is not allocated.  An object of a class that
is allocated is followed by what the set-up callbacks leave on the stack, one after the
other and base class first, up to the first that fails; and it is the one new entry, also
if one fails, where they leave the stack as they find it.  There is none if it is not
allocated. -/
theorem created_object_is_rooted (lawful : host.Lawful) (S : Array Value) :
    (∀ name call, Meets (HasStack S) (View.makeFunction host name call)
      (fun f => HasStack (S.push (.object f))) (HasStack S)) ∧
    (∀ data, Meets (HasStack S) (View.makeObject host none data)
      (fun o => HasStack (S.push (.object o))) (HasStack S)) ∧
    (∀ c construct, Roots S (View.makeConstructor host c construct)
      (View.allocConstructor host c construct) Prod.snd fun _ _ => #[]) ∧
    ∀ c data,
      Roots S (View.makeObject host (some c) data) (View.makeInstance host c data) (fun o => o)
        (fun o s => View.leftBySetUp host o c.chain.reverse (s.rooted o)) ∧
      (c.SetsUpBalanced host →
        Roots S (View.makeObject host (some c) data) (View.makeInstance host c data) (fun o => o)
          fun _ _ => #[]) := by
  refine ⟨meets_makeFunction, meets_makeObject_plain, roots_makeConstructor,
    fun c data => ⟨roots_makeObject data fun o s rooted => ?_,
      fun balanced => roots_makeObject data fun o s rooted => ?_⟩⟩
  · have stack := stack_setUpAlong lawful o c.chain.reverse (s.rooted o)
    rw [show (s.rooted o).heap.stack = _ from rooted] at stack
    exact stack
  · rw [Array.append_empty]
    exact (hasStack_setUpAlong fun d mem f own =>
      balanced d (List.mem_reverse.mp mem) f own o _).state rooted

/-- Makes a plain object, and then ends in some way. -/
def makingPlain {α : Type} (ending : Except Fault α) : Action Unit α := do
  let _ ← View.makePlain idleHost
  fun s => (ending, s)

theorem above_makingPlain {α : Type} (ending : Except Fault α) : (makingPlain ending).Above :=
  Action.above_of_keeps fun start =>
    (keeps_makePlain (enduring_within idleHost start).lingering).bind fun _ =>
      Preserves.of_state fun _ hs => hs

/-- A host whose functions make a plain object, and do nothing else. -/
def makingHost : Host Unit :=
  { idleHost with answer := fun _ r => makingPlain r.unanswered }

theorem lawful_makingHost : makingHost.Lawful := fun _ _ => above_makingPlain _

/-- A host whose functions make a plain object, and fail. -/
def refusingHost : Host Unit :=
  { idleHost with answer := fun _ _ => makingPlain (.error (.thrown .undefined)) }

theorem lawful_refusingHost : refusingHost.Lawful := fun _ _ => above_makingPlain _

/-- A class with a set-up callback. -/
def setUpClass : Class where
  own :=
    { id := ⟨0⟩, version := 0, name := Text.ofString "Set up", automatic := true
      values := [], functions := []
      callbacks := fun op => if op = .setUp then some ⟨0⟩ else none }
  ancestors := []

/-- A view of a new heap. -/
def freshSession : Session Unit := ⟨new ⟨0⟩ .standard .synchronous, [], ()⟩

/-- A view of a new heap that has room for one object, and for no property. -/
def scarceSession : Session Unit := ⟨new ⟨0⟩ ⟨400, 400⟩ .synchronous, [], ()⟩

/-- Where a set-up callback makes an object, the new object is rooted below that; where set-up
callbacks collect, it is alone on the stack. -/
theorem created_object_is_rooted_set_up :
    (makingHost.Lawful ∧ HasStack #[] freshSession ∧
      HasStack #[.object ⟨⟨0⟩, 3, 0⟩, .object ⟨⟨0⟩, 4, 0⟩]
        (View.makeObject makingHost (some setUpClass) none freshSession).2) ∧
    collectingHost.Lawful ∧ setUpClass.SetsUpBalanced collectingHost ∧
      HasStack #[.object ⟨⟨0⟩, 3, 0⟩]
        (View.makeObject collectingHost (some setUpClass) none freshSession).2 := by
  have empty : HasStack #[] freshSession := rfl
  have balanced : setUpClass.SetsUpBalanced collectingHost := fun _ _ _ _ _ T =>
    (keeps_collect (sturdy_hasStack idleHost T).tender).bind fun _ =>
      Preserves.of_state fun _ hs => hs
  obtain ⟨made, -⟩ := (created_object_is_rooted lawful_makingHost #[]).2.2.2 setUpClass none
  obtain ⟨-, alone⟩ := (created_object_is_rooted lawful_collectingHost #[]).2.2.2 setUpClass none
  have followed := made.of_ok empty (b := ⟨⟨0⟩, 3, 0⟩) (by decide +kernel)
  have left : View.leftBySetUp makingHost ⟨⟨0⟩, 3, 0⟩ setUpClass.chain.reverse
      ((View.makeInstance makingHost setUpClass none freshSession).2.rooted ⟨⟨0⟩, 3, 0⟩) =
        #[.object ⟨⟨0⟩, 4, 0⟩] := by decide +kernel
  rw [left] at followed
  exact ⟨⟨lawful_makingHost, empty, followed⟩, lawful_collectingHost, balanced,
    (alone balanced).of_ok empty (b := ⟨⟨0⟩, 3, 0⟩) (by decide +kernel)⟩

/-- So an object of a class is not always the one new entry on the stack: what a set-up callback
made is on top of it.  And where making an object fails the stack is not always as it was: the
object is still there if a set-up callback fails, and so is a constructor without room for its
`prototype` property. -/
theorem set_up_objects_stay :
    (makingHost.Lawful ∧ HasStack #[] freshSession ∧
      ∃ o, (View.makeObject makingHost (some setUpClass) none freshSession).1 = .ok o ∧
        ¬ HasStack (#[].push (.object o))
          (View.makeObject makingHost (some setUpClass) none freshSession).2) ∧
    (refusingHost.Lawful ∧ HasStack #[] freshSession ∧
      ∃ e, (View.makeObject refusingHost (some setUpClass) none freshSession).1 = .error e ∧
        ¬ HasStack #[] (View.makeObject refusingHost (some setUpClass) none freshSession).2) ∧
    idleHost.Lawful ∧ HasStack #[] scarceSession ∧
      (View.makeConstructor idleHost none none scarceSession).1 = .error .outOfMemory ∧
        ¬ HasStack #[] (View.makeConstructor idleHost none none scarceSession).2 :=
  ⟨⟨lawful_makingHost, rfl, ⟨⟨0⟩, 3, 0⟩, by decide +kernel, by decide +kernel⟩,
    ⟨lawful_refusingHost, rfl, .thrown .undefined, by decide +kernel, by decide +kernel⟩,
    lawful_idleHost, rfl, by decide +kernel, by decide +kernel⟩

end HostObjects
