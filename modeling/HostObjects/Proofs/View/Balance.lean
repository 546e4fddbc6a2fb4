import HostObjects.Proofs.View.Keyed

/-!
# Operations leave the stack as it was

Whatever an operation of a view roots it unroots before it returns, its callbacks
included, but for its result: with a fault the stack is what it was, and with an
answer it has at most one more entry, the object that the operation gives back
(`Invocation.meets_balanced`).
-/

namespace HostObjects

open Heap

variable {σ α : Type} {host : Host σ} {S : Array Value}

/-- The stack of roots is this one. -/
def HasStack (S : Array Value) (s : Session σ) : Prop := s.heap.stack = S

/-- The stack is this one, or has the object that was given back on top. -/
def HasResult (S : Array Value) (returned : Option Value) (s : Session σ) : Prop :=
  HasStack S s ∨ ∃ o, returned = some (.object o) ∧ HasStack (S.push (.object o)) s

theorem hasStack_inScope {act : Action σ α} (above : act.Above) :
    Preserves (HasStack S) (Action.inScope act) :=
  Preserves.of_state fun s hs => (inScope_stack above s).trans hs

/-- At most an object is rooted as the result. -/
theorem Heap.stack_withResult (h : Heap) (v : Option Value) :
    (h.withResult v).stack = h.stack ∨
      ∃ o, v = some (.object o) ∧ (h.withResult v).stack = h.stack.push (.object o) := by
  cases v with
  | none => exact Or.inl rfl
  | some v =>
      have stack : (h.withResult (some v)).stack =
          h.stack ++ ([v].filter (Action.isRootable h)).toArray := rfl
      rw [stack]
      cases rootable : Action.isRootable h v with
      | false =>
          rw [List.filter_cons_of_neg (by simp [rootable])]
          exact Or.inl Array.append_empty
      | true =>
          rw [List.filter_cons_of_pos rootable]
          cases v with
          | object o => exact Or.inr ⟨o, rfl, rfl⟩
          | _ => cases rootable

/-! ### Conversions -/

theorem above_convert (lawful : host.Lawful) (o : Handle) (hint : Kind) :
    (View.convert host o hint).Above :=
  Action.above_of_keeps fun start => keeps_convert (enduring_within host start).lingering
    (lawful.keeps (unbrokenAbove_within start)) o hint

theorem hasStack_toNumber (lawful : host.Lawful) (v : Value) :
    Preserves (HasStack S) (View.toNumber host v) := by
  cases v with
  | object o =>
      exact (hasStack_inScope (above_convert lawful o .number)).bind fun _ => Preserves.pure _
  | _ => exact Preserves.pure _

theorem hasStack_toText (lawful : host.Lawful) (v : Value) :
    Preserves (HasStack S) (View.toText host v) := by
  cases v with
  | object o =>
      refine (hasStack_inScope (above_convert lawful o .string)).bind fun w => ?_
      cases w with
      | object p => exact Preserves.bind (keeps_reading _) fun _ => Preserves.pure _
      | _ => exact Preserves.pure _
  | _ => exact Preserves.pure _

theorem hasStack_naming (lawful : host.Lawful) (key : Value) (written : Option Value) :
    Preserves (HasStack S) (View.naming host key written) := by
  cases written with
  | none => exact hasStack_toText lawful key
  | some v =>
      rw [naming_some]
      exact hasStack_inScope
        ((above_rootAll host [v]).bind fun _ => above_toText lawful key)

/-! ### All operations -/

namespace Invocation

theorem meets_direct (lawful : host.Lawful) (q : Invocation α) {o : Handle}
    (direct : q.target? = some o) :
    Meets (HasStack S) (q.perform host) (fun a => HasResult S (q.returned a))
      (HasStack S) := by
  rintro s rfl
  obtain ⟨h, spares, after⟩ := q.perform_state lawful direct s
  refine ⟨fun a s' run => ?_, fun e s' run => ?_⟩
  · rw [run] at after
    unfold HasResult HasStack
    rw [after, ← spares.stack]
    exact h.stack_withResult (q.returned a)
  · rw [run] at after
    show s'.heap.stack = s.heap.stack
    rw [after, spares.stack]

/-- The operation on the name gives back what the operation on the key does. -/
theorem returned_named {q : Invocation α} {o : Handle} {key : Value}
    {written : Option Value} (keyed : q.keyed? = some (o, key, written)) (name : Text) :
    (q.named name).returned = q.returned := by
  cases q <;> cases keyed <;> rfl

theorem meets_keyed (lawful : host.Lawful) (q : Invocation α) {o : Handle} {key : Value}
    {written : Option Value} (keyed : q.keyed? = some (o, key, written)) :
    Meets (HasStack S) (q.perform host) (fun a => HasResult S (q.returned a))
      (HasStack S) := by
  rw [perform_keyed keyed]
  refine Meets.bind (hasStack_naming lawful key written) fun name => ?_
  have direct := (q.named name).meets_direct (S := S) lawful (target?_named keyed name)
  rwa [returned_named keyed] at direct

/-- **Every operation leaves the stack as it was**, with at most its result on top. -/
theorem meets_balanced (lawful : host.Lawful) (q : Invocation α) :
    Meets (HasStack S) (q.perform host) (fun a => HasResult S (q.returned a))
      (HasStack S) := by
  have same : ∀ {act : Action σ α} {returned : α → Option Value},
      Preserves (HasStack S) act →
        Meets (HasStack S) act (fun a => HasResult S (returned a)) (HasStack S) :=
    fun keep => Meets.imp (fun _ hs => hs) (fun _ _ hs => Or.inl hs) (fun _ hs => hs) keep
  cases q with
  | toNumber v => exact same (hasStack_toNumber lawful v)
  | toText v => exact same (hasStack_toText lawful v)
  | hasKeyed o key => exact (hasKeyed o key).meets_keyed lawful rfl
  | getKeyed o key => exact (getKeyed o key).meets_keyed lawful rfl
  | setKeyed o key v attributes => exact (setKeyed o key v attributes).meets_keyed lawful rfl
  | deleteKeyed o key => exact (deleteKeyed o key).meets_keyed lawful rfl
  | _ => exact meets_direct lawful _ rfl

end Invocation

end HostObjects
