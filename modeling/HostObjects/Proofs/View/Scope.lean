import HostObjects.Proofs.View.Callback

/-!
# Scopes of a view

Operations root what they work on in a scope, and the end of the scope cuts the stack
back.  All that a callback may do inside is to act above the height of the stack at
which it is called (`Action.Above`), and a host of which that is known of every
function is `Host.Lawful`: its functions may collect, run operations, open scopes and
fail.

An action of that kind in a scope leaves the stack as it was (`inScope_stack`), and
the objects that were rooted before it ran survive it (`isValid_of_rootAll`).  Both
hold whether it fails or not.
-/

namespace HostObjects

open Heap

variable {σ α β : Type} {base : Nat} {I : Heap → Prop} {host : Host σ}

/-! ### Acting above the stack -/

/-- Whatever the action does to the heap is commands above the height of the stack at
which it starts. -/
def Action.Above (act : Action σ α) : Prop := ∀ s, Within s.heap (act s).2.heap

/-- The functions of the host act through the view that they are given. -/
def Host.Lawful (host : Host σ) : Prop :=
  ∀ {α : Type} (f : HostFunction) (r : Request α), (host.answer f r).Above

/-- An action above the stack keeps what commands above a height keep. -/
theorem Action.Above.keeps {act : Action σ α} (above : act.Above)
    (unbroken : UnbrokenAbove base I) : Preserves (fun s => I s.heap) act :=
  Preserves.of_state fun s hs => unbroken.within hs (above s)

theorem Host.Lawful.keeps (lawful : host.Lawful) (unbroken : UnbrokenAbove base I) :
    host.Keeps fun s => I s.heap :=
  fun f r => (lawful f r).keeps unbroken

/-- What leads from each heap to one within it is above the stack. -/
theorem Action.above_of_keeps {act : Action σ α}
    (keep : ∀ start : Heap, Preserves (fun s => Within start s.heap) act) : act.Above :=
  fun s => (keep s.heap).state .refl

theorem enduring_within (host : Host σ) (start : Heap) :
    Enduring host start.stack.size fun s => Within start s.heap :=
  (unbrokenAbove_within start).enduring host

/-! ### Hosts without state -/

/-- The answer that ends nothing; a call gives back its receiver. -/
def Request.unanswered : {α : Type} → Request α → Except Fault α
  | _, setUp _ => .ok ()
  | _, has _ _ | _, set _ _ _ | _, delete _ _ | _, hasInstance _ _ => .ok false
  | _, get _ _ | _, convert _ _ => .ok none
  | _, names _ _ => .ok []
  | _, call _ this _ => .ok this
  | _, construct _ _ => .error .notConstructable

/-- A host whose functions do nothing. -/
def idleHost : Host Unit where
  finalize _ _ _ data s := (data, s)
  discard _ s := s
  answer _ r s := (r.unanswered, s)
  holds _ _ := true

/-- A host whose functions run a collection and do nothing else. -/
def collectingHost : Host Unit :=
  { idleHost with
    answer := fun _ r => do
      Action.collect idleHost
      fun s => (r.unanswered, s) }

theorem lawful_idleHost : idleHost.Lawful := fun _ _ _ => .refl

theorem lawful_collectingHost : collectingHost.Lawful := fun _ _ =>
  Action.above_of_keeps fun start =>
    (keeps_collect (enduring_within idleHost start).toSturdy.tender).bind fun _ =>
      Preserves.of_state fun _ hs => hs

/-! ### Scopes -/

/-- **A scope leaves the stack as it was.** -/
theorem inScope_stack {act : Action σ α} (above : act.Above) (s : Session σ) :
    (Action.inScope act s).2.heap.stack = s.heap.stack :=
  (above s).cutStack_stack

/-! ### Rooting operands -/

/-- The session with another heap. -/
def Session.withHeap (s : Session σ) (h : Heap) : Session σ := { s with heap := h }

/-- The heap with the values on its stack that can be rooted. -/
def Heap.rootAll (h : Heap) (vs : List Value) : Heap :=
  { h with stack := h.stack ++ (vs.filter (Action.isRootable h)).toArray }

/-- Which values can be rooted does not depend on the stack. -/
theorem Heap.isRootable_rootAll (h : Heap) (vs : List Value) :
    Action.isRootable (h.rootAll vs) = Action.isRootable h := by
  funext v
  cases v <;> rfl

theorem Heap.sameTable_rootAll (h : Heap) (vs : List Value) : SameTable h (h.rootAll vs) :=
  ⟨rfl, rfl, rfl, rfl, rfl⟩

theorem Heap.rootAll_append (h : Heap) (us vs : List Value) :
    (h.rootAll us).rootAll vs = h.rootAll (us ++ vs) := by
  have stack : h.stack ++ (us.filter (Action.isRootable h)).toArray ++
      (vs.filter (Action.isRootable h)).toArray =
      h.stack ++ ((us ++ vs).filter (Action.isRootable h)).toArray := by
    rw [List.filter_append, Array.append_assoc]
    apply Array.ext'
    simp
  show { h.rootAll us with
    stack := (h.rootAll us).stack ++ (vs.filter (Action.isRootable (h.rootAll us))).toArray } = _
  rw [isRootable_rootAll]
  exact congrArg (fun S => { h with stack := S }) stack

/-- An object of the heap can be rooted. -/
theorem Heap.mem_stack_rootAll {h : Heap} {vs : List Value} {o : Handle}
    (mem : .object o ∈ vs) (valid : h.isValid o = true) :
    .object o ∈ (h.rootAll vs).stack := by
  have rootable : Action.isRootable h (.object o) = true := by
    simp [Action.isRootable, valid]
  have kept : .object o ∈ vs.filter (Action.isRootable h) := List.mem_filter.mpr ⟨mem, rootable⟩
  exact Array.mem_append_right _ (List.mem_toArray.mpr kept)

theorem rootOperand_apply (v : Value) (s : Session σ) :
    Action.rootOperand v s = (.ok (), s.withHeap (s.heap.rootAll [v])) := by
  unfold Action.rootOperand
  cases rootable : Action.isRootable s.heap v with
  | true =>
      have one : [v].filter (Action.isRootable s.heap) = [v] := by simp [rootable]
      show (Except.ok (), (⟨s.heap.pushRoot v, s.holding, s.host⟩ : Session σ)) = _
      rw [Heap.rootAll, one]
      rfl
  | false =>
      have nothing : [v].filter (Action.isRootable s.heap) = [] := by simp [rootable]
      show (Except.ok (), s) = _
      rw [Heap.rootAll, nothing]
      rfl

theorem rootAll_apply (vs : List Value) (s : Session σ) :
    View.rootAll vs s = (.ok (), s.withHeap (s.heap.rootAll vs)) := by
  induction vs generalizing s with
  | nil =>
      show (Except.ok (), s) =
        (Except.ok (), s.withHeap { s.heap with stack := s.heap.stack ++ #[] })
      rw [Array.append_empty]
      rfl
  | cons v vs ih =>
      unfold View.rootAll
      rw [bind_apply, rootOperand_apply]
      show View.rootAll vs (s.withHeap (s.heap.rootAll [v])) = _
      rw [ih]
      exact congrArg (fun h => (Except.ok (), s.withHeap h)) (s.heap.rootAll_append [v] vs)

theorem above_rootAll (host : Host σ) (vs : List Value) :
    (View.rootAll vs : Action σ Unit).Above :=
  Action.above_of_keeps fun start => keeps_rootAll (enduring_within host start).lingering vs

theorem Action.Above.bind {act : Action σ α} {next : α → Action σ β} (first : act.Above)
    (second : ∀ a, (next a).Above) : (act >>= next).Above :=
  Action.above_of_keeps fun start => (first.keeps (unbrokenAbove_within start)).bind
    fun a => (second a).keeps (unbrokenAbove_within start)

/-- **Objects rooted before an action survive it**, whether it fails or not. -/
theorem isValid_of_rootAll {body : Action σ α} (above : body.Above) {s : Session σ}
    (ok : Intact s.heap) {vs : List Value} {o : Handle} (mem : .object o ∈ vs)
    (valid : s.heap.isValid o = true) :
    ((do View.rootAll vs; body : Action σ α) s).2.heap.isValid o = true := by
  have same := s.heap.sameTable_rootAll vs
  rw [bind_apply, rootAll_apply]
  refine (above (s.withHeap (s.heap.rootAll vs))).isValid (ok.congr same)
    (mem_stack_rootAll mem valid) ?_
  show (s.heap.rootAll vs).isValid o = true
  rwa [same.isValid]

/-! ### Operations on operands -/

namespace Action

/-- Roots what an operation gives back, if it gives back a value. -/
def rootResult : Option Value → Action σ Unit
  | some v => rootOperand v
  | none => return ()

/-- An action on an object with its operands rooted: the handle of the object is
checked first, and what is given back is rooted at the end. -/
def withOperands (o : Handle) (operands : List Value) (returned : α → Option Value)
    (body : Action σ α) : Action σ α := do
  reading fun h => h.check o
  let a ← inScope do
    View.rootAll operands
    body
  rootResult (returned a)
  return a

end Action

/-- What an action on operands leaves of a heap, before its result is rooted: the stack
as it was, and the operands that were valid. -/
structure Heap.Spares (h : Heap) (operands : List Value) (h' : Heap) : Prop where
  stack : h'.stack = h.stack
  isValid : Intact h → ∀ o, .object o ∈ operands → h.isValid o = true →
    h'.isValid o = true

theorem Heap.Spares.refl (h : Heap) (operands : List Value) : h.Spares operands h :=
  ⟨rfl, fun _ _ _ valid => valid⟩

theorem spares_scope (host : Host σ) {body : Action σ α} (above : body.Above)
    (operands : List Value) (s : Session σ) :
    s.heap.Spares operands
      (Action.inScope (do View.rootAll operands; body) s).2.heap where
  stack := inScope_stack ((above_rootAll host operands).bind fun _ => above) s
  isValid ok _ mem valid := isValid_of_rootAll above ok mem valid

/-- The heap with the value on its stack that an operation gives back, if it gives back
one that can be rooted. -/
def Heap.withResult (h : Heap) : Option Value → Heap
  | some v => h.rootAll [v]
  | none => h

theorem Heap.sameTable_withResult (h : Heap) (v : Option Value) :
    SameTable h (h.withResult v) := by
  cases v with
  | some v => exact h.sameTable_rootAll [v]
  | none => exact .refl h

theorem rootResult_apply (v : Option Value) (s : Session σ) :
    Action.rootResult v s = (.ok (), s.withHeap (s.heap.withResult v)) := by
  cases v with
  | some v => exact rootOperand_apply v s
  | none => rfl

/-- **An action on operands spares them**, and leaves on the stack at most its
result. -/
theorem withOperands_state (host : Host σ) {body : Action σ α} (above : body.Above)
    (o : Handle) (operands : List Value) (returned : α → Option Value) (s : Session σ) :
    ∃ h, s.heap.Spares operands h ∧
      match Action.withOperands o operands returned body s with
      | (.error _, s') => s'.heap = h
      | (.ok a, s') => s'.heap = h.withResult (returned a) := by
  unfold Action.withOperands
  rw [bind_apply]
  cases checked : s.heap.check o with
  | error e =>
      refine ⟨s.heap, .refl _ _, ?_⟩
      simp only [Action.reading, checked]
  | ok _ =>
      refine ⟨_, spares_scope host above operands s, ?_⟩
      simp only [Action.reading, checked]
      rw [bind_apply]
      rcases run : Action.inScope (do View.rootAll operands; body) s with ⟨e | a, s'⟩
      · rfl
      · dsimp only
        rw [bind_apply, rootResult_apply]
        rfl

end HostObjects
