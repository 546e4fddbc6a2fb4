import HostObjects.Proofs.View.Scope

/-!
# The operations of a view in one form

An `Invocation` is an operation of a view with its operands.  The operations on an
object, and the look-up and the write by an index, are of one form
(`perform_eq_withOperands`): the handle of the target is checked, the operands are
rooted in a scope, the body of the operation runs, the scope ends, and an object that
is the result is rooted in the view.  All others are made of these.
-/

namespace HostObjects

open Heap

variable {σ α β : Type} {base : Nat} {I : Heap → Prop} {host : Host σ}

/-! ### Invocations -/

/-- An operation of a view with its operands, indexed by the type of the answer. -/
inductive Invocation : Type → Type where
  | has (o : Handle) (name : Text) : Invocation Bool
  | get (o : Handle) (name : Text) : Invocation Value
  | set (o : Handle) (name : Text) (v : Value) (attributes : Attributes) : Invocation Unit
  | delete (o : Handle) (name : Text) : Invocation Bool
  | names (o : Handle) : Invocation (List Text)
  | call (f : Handle) (this : Value) (args : List Value) : Invocation Value
  | construct (f : Handle) (args : List Value) : Invocation Handle
  | hasInstance (f : Handle) (v : Value) : Invocation Bool
  | convert (o : Handle) (hint : Kind) : Invocation Value
  | toNumber (v : Value) : Invocation Double
  | toText (v : Value) : Invocation Text
  | getIndex (o : Handle) (i : UInt32) : Invocation Value
  | setIndex (o : Handle) (i : UInt32) (v : Value) : Invocation Unit
  | hasKeyed (o : Handle) (key : Value) : Invocation Bool
  | getKeyed (o : Handle) (key : Value) : Invocation Value
  | setKeyed (o : Handle) (key v : Value) (attributes : Attributes) : Invocation Unit
  | deleteKeyed (o : Handle) (key : Value) : Invocation Bool

namespace Invocation

/-- Runs the operation. -/
def perform (host : Host σ) : {α : Type} → Invocation α → Action σ α
  | _, has o name => View.hasProperty host o name
  | _, get o name => View.getProperty host o name
  | _, set o name v attributes => View.setProperty host o name v attributes
  | _, delete o name => View.deleteProperty host o name
  | _, names o => View.propertyNames host o
  | _, call f this args => View.call host f this args
  | _, construct f args => View.construct host f args
  | _, hasInstance f v => View.hasInstance host f v
  | _, convert o hint => View.convert host o hint
  | _, toNumber v => View.toNumber host v
  | _, toText v => View.toText host v
  | _, getIndex o i => View.getIndex host o i
  | _, setIndex o i v => View.setIndex host o i v
  | _, hasKeyed o key => View.hasKeyed host o key
  | _, getKeyed o key => View.getKeyed host o key
  | _, setKeyed o key v attributes => View.setKeyed host o key v attributes
  | _, deleteKeyed o key => View.deleteKeyed host o key

/-- The values that the caller hands over, the target first. -/
def operands : {α : Type} → Invocation α → List Value
  | _, has o _ | _, get o _ | _, delete o _ | _, names o | _, convert o _
  | _, getIndex o _ => [.object o]
  | _, set o _ v _ | _, setIndex o _ v => [.object o, v]
  | _, call f this args => .object f :: this :: args
  | _, construct f args => .object f :: args
  | _, hasInstance f v => [.object f, v]
  | _, toNumber v | _, toText v => [v]
  | _, hasKeyed o key | _, getKeyed o key | _, deleteKeyed o key => [.object o, key]
  | _, setKeyed o key v _ => [.object o, key, v]

/-- The value among the answers that the operation gives back: of a look-up, a call, a
construction and a conversion. -/
def returned : {α : Type} → Invocation α → α → Option Value
  | _, get _ _ | _, call _ _ _ | _, convert _ _ | _, getIndex _ _ | _, getKeyed _ _ => some
  | _, construct _ _ => fun made => some (.object made)
  | _, has _ _ | _, delete _ _ | _, hasInstance _ _ | _, hasKeyed _ _
  | _, deleteKeyed _ _ => fun _ => none
  | _, set _ _ _ _ | _, setIndex _ _ _ | _, setKeyed _ _ _ _ => fun _ => none
  | _, names _ => fun _ => none
  | _, toNumber _ => fun _ => none
  | _, toText _ => fun _ => none

end Invocation

/-! ### What operations keep -/

namespace Invocation

/-- The write or the deletion at an object that the operation may come to keeps a property of
the session. -/
def OwnKept (host : Host σ) (J : Session σ → Prop) : {α : Type} → Invocation α → Prop
  | _, set o name v attributes => Preserves J (View.writeOwn host o ⟨name, v, attributes⟩)
  | _, setIndex o i v => Preserves J (View.writeOwn host o ⟨Text.ofNat i.toNat, v, .none⟩)
  | _, setKeyed o _ v attributes =>
    ∀ name, Preserves J (View.writeOwn host o ⟨name, v, attributes⟩)
  | _, delete o name => Preserves J (Action.editing (Heap.deleteOwn o name) : Action σ Bool)
  | _, deleteKeyed o _ =>
    ∀ name, Preserves J (Action.editing (Heap.deleteOwn o name) : Action σ Bool)
  | _, _ => True

variable {J : Session σ → Prop}

theorem ownKept (sturdy : Sturdy host J) (q : Invocation α) : q.OwnKept host J := by
  cases q with
  | set | setIndex => exact keeps_writeOwn sturdy _ _
  | setKeyed => exact fun _ => keeps_writeOwn sturdy _ _
  | delete o name => exact keeps_deleteOwn sturdy o name
  | deleteKeyed o key => exact keeps_deleteOwn sturdy o
  | _ => trivial

/-- Every operation keeps what is lingering, if its write or deletion does. -/
theorem keeps_performing (lingering : Lingering host base J) (lawful : host.Keeps J)
    (q : Invocation α) (own : q.OwnKept host J) : Preserves J (q.perform host) := by
  cases q with
  | has o name => exact keeps_hasProperty lingering lawful o name
  | get o name => exact keeps_getProperty lingering lawful o name
  | set | setIndex => exact keeps_setProperty lingering lawful own
  | delete o name => exact keeps_deleteProperty lingering lawful own
  | names o => exact keeps_propertyNames lingering lawful o
  | call f this args => exact keeps_call lingering lawful f this args
  | construct f args => exact keeps_construct lingering lawful f args
  | hasInstance f v => exact keeps_hasInstance lingering lawful f v
  | convert o hint => exact keeps_convert lingering lawful o hint
  | toNumber v => exact keeps_toNumber lingering lawful v
  | toText v => exact keeps_toText lingering lawful v
  | getIndex o i => exact keeps_getProperty lingering lawful o _
  | hasKeyed o key => exact keeps_hasKeyed lingering lawful o key
  | getKeyed o key => exact keeps_getKeyed lingering lawful o key
  | setKeyed o key => exact keeps_setKeyed lingering lawful key own
  | deleteKeyed o key => exact keeps_deleteKeyed lingering lawful key own

/-- Every operation keeps whatever is enduring. -/
theorem keeps_perform (enduring : Enduring host base J) (lawful : host.Keeps J)
    (q : Invocation α) : Preserves J (q.perform host) :=
  q.keeps_performing enduring.lingering lawful (q.ownKept enduring.toSturdy)

end Invocation

/-! ### The form of the direct operations -/

namespace Invocation

/-- The object that a direct operation is on. -/
def target? : {α : Type} → Invocation α → Option Handle
  | _, has o _ | _, get o _ | _, set o _ _ _ | _, delete o _ | _, names o | _, call o _ _
  | _, construct o _ | _, hasInstance o _ | _, convert o _ | _, getIndex o _
  | _, setIndex o _ _ => some o
  | _, _ => none

/-- What a direct operation does with its operands rooted. -/
def body (host : Host σ) : {α : Type} → Invocation α → Action σ α
  | _, has o name => View.hasOnChain host o name
  | _, get o name => View.lookUp host o name
  | _, set o name v attributes => View.write host o ⟨name, v, attributes⟩
  | _, delete o name => View.deleteAt host o name
  | _, names o => View.namesOnChain host o
  | _, call f this args => View.byClass f (View.callResolved host f this args)
  | _, construct f args => View.byClass f (View.constructResolved host f args)
  | _, hasInstance f v => View.byClass f (View.hasInstanceResolved host f v)
  | _, convert o hint => View.convertHinted host o hint
  | _, getIndex o i => View.lookUp host o (Text.ofNat i.toNat)
  | _, setIndex o i v => View.write host o ⟨Text.ofNat i.toNat, v, .none⟩
  | _, q => q.perform host

/-- **The direct operations are of one form.** -/
theorem perform_eq_withOperands (q : Invocation α) {o : Handle}
    (direct : q.target? = some o) :
    q.perform host = Action.withOperands o q.operands q.returned (q.body host) := by
  cases q with
  | toNumber | toText | hasKeyed | getKeyed | setKeyed | deleteKeyed => cases direct
  | _ =>
      cases direct
      simp [perform, body, operands, returned, Action.withOperands, Action.rootResult,
        View.rootAll, Action.operating, View.hasProperty, View.getProperty,
        View.setProperty, View.deleteProperty, View.propertyNames, View.call,
        View.construct, View.hasInstance, View.convert, View.getIndex, View.setIndex]

/-- What a direct operation does with its operands rooted keeps whatever is
enduring. -/
theorem keeps_body {J : Session σ → Prop} (enduring : Enduring host base J)
    (lawful : host.Keeps J) (q : Invocation α) {o : Handle} (direct : q.target? = some o) :
    Preserves J (q.body host) := by
  have lingering := enduring.lingering
  have own := q.ownKept enduring.toSturdy
  cases q with
  | has o name => exact keeps_hasOnChain lingering lawful o name
  | get | getIndex => exact keeps_lookUp lingering lawful _ _
  | set | setIndex => exact keeps_write lingering lawful own
  | delete o name => exact keeps_deleteAt lingering lawful own
  | names o => exact keeps_namesOnChain lingering lawful o
  | call f this args =>
      exact keeps_byClass lingering f (keeps_callResolved lawful f this args)
  | construct f args =>
      exact keeps_byClass lingering f (keeps_constructResolved lingering lawful f args)
  | hasInstance f v =>
      exact keeps_byClass lingering f (keeps_hasInstanceResolved lingering lawful f v)
  | convert o hint => exact keeps_convertHinted lingering lawful o hint
  | toNumber | toText | hasKeyed | getKeyed | setKeyed | deleteKeyed => cases direct

theorem above_body (lawful : host.Lawful) (q : Invocation α) {o : Handle}
    (direct : q.target? = some o) : (q.body host).Above :=
  Action.above_of_keeps fun start => q.keeps_body (enduring_within host start)
    (lawful.keeps (unbrokenAbove_within start)) direct

/-- A direct operation spares its operands, and leaves on the stack at most its
result. -/
theorem perform_state (lawful : host.Lawful) (q : Invocation α) {o : Handle}
    (direct : q.target? = some o) (s : Session σ) :
    ∃ h, s.heap.Spares q.operands h ∧
      match q.perform host s with
      | (.error _, s') => s'.heap = h
      | (.ok a, s') => s'.heap = h.withResult (q.returned a) := by
  rw [q.perform_eq_withOperands direct]
  exact withOperands_state host (q.above_body lawful direct) o q.operands q.returned s

/-- A direct operation fails at once if its target is not valid. -/
theorem perform_of_invalid (q : Invocation α) {o : Handle} (direct : q.target? = some o)
    {s : Session σ} (gone : s.heap.isValid o = false) :
    q.perform host s = (.error (s.heap.rejection o), s) := by
  rw [q.perform_eq_withOperands direct]
  unfold Action.withOperands
  rw [bind_apply]
  simp only [Action.reading, check_of_invalid gone]

/-- An operand of a direct operation that is valid before it is valid after it. -/
theorem isValid_perform (lawful : host.Lawful) {s : Session σ} (ok : Intact s.heap)
    (q : Invocation α) {o p : Handle} (direct : q.target? = some o)
    (mem : .object p ∈ q.operands) (valid : s.heap.isValid p = true) :
    (q.perform host s).2.heap.isValid p = true := by
  obtain ⟨h, spares, after⟩ := q.perform_state lawful direct s
  have survived := spares.isValid ok p mem valid
  rcases run : q.perform host s with ⟨e | a, s'⟩
  · rw [run] at after
    rwa [after]
  · rw [run] at after
    rwa [after, (h.sameTable_withResult _).isValid]

end Invocation

end HostObjects
