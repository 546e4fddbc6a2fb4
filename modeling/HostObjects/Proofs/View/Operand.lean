import HostObjects.Proofs.View.Invocation

/-!
# Operands survive their operation

A caller need not root the objects that it hands to an operation.  Every object
operand that is valid when the operation starts is valid when it returns, with an
answer or a fault and whatever callbacks did in between, and a returned object is
rooted in the view (`perform_spares_operands`).

The operations that name a property by a value are left out: they convert the name
before they root their target.
-/

namespace HostObjects

open Heap

variable {σ α : Type} {host : Host σ}

/-- **Operands survive their operation, and its result is rooted.** -/
theorem perform_spares_operands (lawful : host.Lawful) {s : Session σ}
    (reachable : Reachable s.heap) (q : Invocation α) (direct : q.target?.isSome = true) :
    (∀ p, .object p ∈ q.operands → s.heap.isValid p = true →
      (q.perform host s).2.heap.isValid p = true) ∧
    ∀ a p, (q.perform host s).1 = .ok a → q.returned a = some (.object p) →
      (q.perform host s).2.heap.isValid p = true →
        .object p ∈ (q.perform host s).2.heap.stack := by
  obtain ⟨o, target⟩ := Option.isSome_iff_exists.mp direct
  refine ⟨fun p mem valid => q.isValid_perform lawful reachable.intact target mem valid,
    fun a p answered result valid => ?_⟩
  obtain ⟨h, -, after⟩ := q.perform_state lawful target s
  rcases run : q.perform host s with ⟨e | a', s'⟩
  · rw [run] at answered
    cases answered
  · rw [run] at after answered valid
    cases answered
    rw [after, (h.sameTable_withResult _).isValid] at valid
    rw [after, result]
    exact mem_stack_rootAll (List.mem_singleton.mpr rfl) valid

/-! ### A callback that collects -/

/-- A class whose objects can be called. -/
def callableClass : Class where
  own :=
    { id := ⟨0⟩, version := 0, name := Text.ofString "Callable", automatic := false
      values := [], functions := []
      callbacks := fun op => if op = .call then some ⟨0⟩ else none }
  ancestors := []

/-- A heap with an object of the class and three plain objects.  Nothing is rooted. -/
def unrootedHeap : Heap :=
  after (new ⟨0⟩ .standard .synchronous)
    (turnsOf [.allocInstance callableClass none ⟨⟨0⟩, 0, 0⟩, .allocPlain, .allocPlain,
      .allocPlain])

/-- The call of the object collects and gives back its receiver.  The objects that it
was given are there after it and the receiver is rooted; the object it was not given
is gone. -/
theorem perform_spares_unrooted :
    let call := Invocation.call ⟨⟨0⟩, 2, 0⟩ (.object ⟨⟨0⟩, 3, 0⟩) [.null, .object ⟨⟨0⟩, 4, 0⟩]
    let after := (call.perform collectingHost ⟨unrootedHeap, [], ()⟩).2.heap
    after.collections = 1 ∧ after.isValid ⟨⟨0⟩, 5, 0⟩ = false ∧
      after.isValid ⟨⟨0⟩, 2, 0⟩ = true ∧ after.isValid ⟨⟨0⟩, 4, 0⟩ = true ∧
      .object ⟨⟨0⟩, 3, 0⟩ ∈ after.stack := by
  intro call
  have spares := perform_spares_operands lawful_collectingHost
    (s := ⟨unrootedHeap, [], ()⟩) ((Reachable.new _ _ _).after _) call rfl
  refine ⟨by decide +kernel, by decide +kernel, ?_, ?_, ?_⟩
  · exact spares.1 ⟨⟨0⟩, 2, 0⟩ (by decide +kernel) (by decide +kernel)
  · exact spares.1 ⟨⟨0⟩, 4, 0⟩ (by decide +kernel) (by decide +kernel)
  · exact spares.2 (.object ⟨⟨0⟩, 3, 0⟩) _ (by decide +kernel) rfl (by decide +kernel)

end HostObjects
