import HostObjects.Proofs.View.ClassPrototype
import HostObjects.Proofs.View.Walk

/-!
# Look-ups

A look-up for a value visits the objects of a prototype chain (`visitValue`).  Where the
first object has no class and the property is its own, nothing else is looked at and the
session stays as it is (`getProperty_of_own`); and a test for a prototype looks at no object
at all but at the links (`hasPrototype_of_chain`).
-/

namespace HostObjects

open Heap

variable {σ : Type} {host : Host σ} {s : Session σ} {o p proto : Handle} {obj : HostObject}
  {name : Text} {chain : List Handle}

/-- What was rooted last goes when the stack is cut back. -/
theorem Heap.cutStack_rootAll (h : Heap) (vs : List Value) :
    (h.rootAll vs).cutStack h.stack.size = h := by
  have cut : (h.stack ++ (vs.filter (Action.isRootable h)).toArray).shrink h.stack.size =
      h.stack := by simp
  rw [Heap.rootAll, Heap.cutStack, cut]

/-- The visits of a look-up for a value. -/
def visitValue (host : Host σ) (name : Text) (_ : Unit) (p : Handle) :
    Action σ (Value ⊕ Unit) := do
  match ← View.getAt host p name with
  | some v => return .inl v
  | none => return .inr ()

theorem lookUp_apply (host : Host σ) (o : Handle) (name : Text) (s : Session σ) :
    View.lookUp host o name s =
      match walkFrom (visitValue host name) () (some o) s with
      | (.ok (.inl v), s') => (.ok v, s')
      | (.ok (.inr ()), s') => (.ok .undefined, s')
      | (.error e, s') => (.error e, s') := by
  show (walkFrom (visitValue host name) () (some o) >>= _) s = _
  rw [bind_apply]
  rcases walkFrom (visitValue host name) () (some o) s with ⟨e | v | ⟨⟩, s'⟩ <;> rfl

/-- An own property goes before a function of its name. -/
theorem instanceFunction_of_own {v : Value} (own : s.heap.getOwn p name = .ok (some v))
    (entry : StaticFunction) : View.instanceFunction host p entry name s = (.ok v, s) := by
  unfold View.instanceFunction
  rw [bind_apply]
  simp only [Action.reading, own]
  rfl

/-- An object without a class answers with its own property. -/
theorem getAt_of_plain (found : s.heap.object p = .ok obj) (plain : obj.ofClass = none) :
    View.getAt host p name s =
      (.ok ((Property.find? obj.properties name).map Property.value), s) := by
  have ofClass : s.heap.classOf p = .ok none := by
    rw [Heap.classOf, found]
    exact congrArg Except.ok plain
  have own : s.heap.getOwn p name =
      .ok ((Property.find? obj.properties name).map Property.value) := by
    rw [Heap.getOwn, Heap.ownProperty, found]
    rfl
  unfold View.getAt
  rw [bind_apply]
  simp only [Action.reading, ofClass, own]

theorem visitValue_of_plain (found : s.heap.object p = .ok obj) (plain : obj.ofClass = none) :
    visitValue host name () p s =
      (.ok (match Property.find? obj.properties name with
        | some own => .inl own.value
        | none => .inr ()), s) := by
  unfold visitValue
  rw [bind_apply, getAt_of_plain found plain]
  cases Property.find? obj.properties name <;> rfl

/-- **A look-up ends with the first object** if that answers.  The value is rooted. -/
theorem getProperty_of_answer (valid : s.heap.isValid o = true) {v : Value} {t : Session σ}
    (answer : View.getAt host o name (s.withHeap (s.heap.rootAll [.object o])) =
      (.ok (some v), t)) :
    View.getProperty host o name s =
      (.ok v, t.withHeap ((t.heap.cutStack s.heap.stack.size).withResult (some v))) := by
  have visited : visitValue host name () o (s.withHeap (s.heap.rootAll [.object o])) =
      (.ok (.inl v), t) := by
    unfold visitValue
    rw [bind_apply, answer]
    rfl
  have form : View.getProperty host o name = _ :=
    (Invocation.get o name).perform_eq_withOperands rfl
  rw [form, withOperands_apply valid]
  simp only [Invocation.body, Invocation.operands, Invocation.returned]
  rw [lookUp_apply, walkFrom_of_ended visited fun _ same => by cases same]

/-- It ends there with a fault as well. -/
theorem getProperty_of_failure (valid : s.heap.isValid o = true) {e : Fault} {t : Session σ}
    (failure : View.getAt host o name (s.withHeap (s.heap.rootAll [.object o])) = (.error e, t)) :
    View.getProperty host o name s =
      (.error e, t.withHeap (t.heap.cutStack s.heap.stack.size)) := by
  have visited : visitValue host name () o (s.withHeap (s.heap.rootAll [.object o])) =
      (.error e, t) := by
    unfold visitValue
    rw [bind_apply, failure]
  have form : View.getProperty host o name = _ :=
    (Invocation.get o name).perform_eq_withOperands rfl
  rw [form, withOperands_apply valid]
  simp only [Invocation.body, Invocation.operands, Invocation.returned]
  rw [lookUp_apply, walkFrom_of_ended visited fun _ same => by cases same]

/-- **Reading an own property of an object without a class** gives its value and roots it,
and does nothing else. -/
theorem getProperty_of_own {own : Property} (found : s.heap.object o = .ok obj)
    (plain : obj.ofClass = none) (there : Property.find? obj.properties name = some own) :
    View.getProperty host o name s =
      (.ok own.value, s.withHeap (s.heap.withResult (some own.value))) := by
  have found' : (s.withHeap (s.heap.rootAll [.object o])).heap.object o = .ok obj := found
  have answer : View.getAt host o name (s.withHeap (s.heap.rootAll [.object o])) =
      (.ok (some own.value), s.withHeap (s.heap.rootAll [.object o])) := by
    rw [getAt_of_plain found' plain, there]
    rfl
  rw [getProperty_of_answer (isValid_of_object found) answer]
  rw [show (s.withHeap (s.heap.rootAll [.object o])).heap.cutStack s.heap.stack.size = s.heap from
    s.heap.cutStack_rootAll _]
  rfl

/-! ### Tests for a prototype -/

/-- The visits of a test for a prototype. -/
def visitPrototype (proto : Handle) (_ : Unit) (p : Handle) : Action σ (Unit ⊕ Unit) :=
  return if p = proto then .inl () else .inr ()

theorem visitAll_visitPrototype {budget : Nat} (short : chain.length ≤ budget) :
    visitAll (visitPrototype proto) budget () chain s =
      (.ok (if proto ∈ chain then .inl () else .inr ()), s) := by
  induction chain generalizing budget with
  | nil => simp [visitAll]; rfl
  | cons p ps ih =>
      obtain ⟨budget, rfl⟩ := Nat.exists_eq_add_of_le' (Nat.le_trans (Nat.succ_pos _) short)
      unfold visitAll visitPrototype
      rw [bind_apply]
      by_cases same : p = proto
      · rw [if_pos same, if_pos (same ▸ List.mem_cons_self)]
        rfl
      · rw [if_neg same]
        have rest := ih (Nat.le_of_succ_le_succ short)
        have other : proto ∈ p :: ps ↔ proto ∈ ps := by
          simp [List.mem_cons, Ne.symm same]
        simp only [other]
        exact rest

/-- **A test for a prototype goes through the chain of the prototype that an object has.** -/
theorem hasPrototype_of_chain (link : s.heap.prototype o = .ok (some p))
    (walk : PrototypeChain s.heap p chain) (short : chain.length ≤ maxPrototypeChain) :
    View.hasPrototype proto o s = (.ok (decide (proto ∈ chain)), s) := by
  have walked : walkFrom (visitPrototype proto) () (some p) s =
      (.ok (if proto ∈ chain then .inl () else .inr ()), s) := by
    rw [walkFrom_of_still walk (fun q _ _ _ t run => ?_) (), visitAll_visitPrototype short]
    unfold visitPrototype at run
    exact (Prod.mk.inj run).2.symm
  show (Action.reading (fun h => h.prototype o) >>= _) s = _
  rw [bind_apply]
  simp only [Action.reading, link]
  show (walkFrom (visitPrototype proto) () (some p) >>= _) s = _
  rw [bind_apply, walked]
  by_cases mem : proto ∈ chain
  · rw [if_pos mem, decide_eq_true mem]
    rfl
  · rw [if_neg mem, decide_eq_false mem]
    rfl

end HostObjects
