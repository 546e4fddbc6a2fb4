import HostObjects.Proofs.Number.Numeral
import HostObjects.Proofs.View.Keyed
import HostObjects.Proofs.View.Lookup

/-!
# Indexes and keys

A key that is a primitive is named without a callback.  What is rooted meanwhile for a
write goes again before the operation starts, so an operation on such a key is the
operation on its text and no different (`Invocation.perform_of_primitive`).

The text of a whole number is its numeral, up to `2 ^ 53` and so for every index
(`Double.toText_ofNat`).  Hence an index, the number as a key and the numeral as a name
stand for one property.
-/

namespace HostObjects

open Heap

variable {σ α : Type} {q : Invocation α} {o : Handle} {key : Value}
  {written : Option Value} {t : Text}

theorem toText_of_primitive (host : Host σ) (named : key.primitiveText? = some t) :
    View.toText host key = pure t := by
  cases key <;> cases named <;> rfl

/-- A primitive is named at once, whatever is rooted meanwhile. -/
theorem naming_of_primitive (host : Host σ) (named : key.primitiveText? = some t)
    (written : Option Value) : View.naming host key written = pure t := by
  cases written with
  | none => exact toText_of_primitive host named
  | some v =>
    rw [naming_some, toText_of_primitive host named]
    funext s
    unfold Action.inScope
    rw [bind_apply, rootAll_apply]
    exact congrArg (fun h => (Except.ok t, s.withHeap h)) (s.heap.cutStack_rootAll [v])

/-- **An operation on a primitive as the key is the operation on its text.** -/
theorem Invocation.perform_of_primitive (host : Host σ)
    (keyed : q.keyed? = some (o, key, written)) (named : key.primitiveText? = some t) :
    q.perform host = (q.named t).perform host := by
  rw [perform_keyed keyed, naming_of_primitive host named, pure_bind]

theorem primitiveText?_ofNat {n : Nat} (small : n < 2 ^ 53) :
    (Value.number (Double.ofNat n)).primitiveText? = some (Text.ofNat n) :=
  congrArg some (Double.toText_ofNat small)

/-- **An index names the property that its number names as a key**, which is the property named
by its numeral. -/
theorem index_eq_number_key (host : Host σ) (o : Handle) (i : UInt32) :
    (∃ m, Double.ofNat i.toNat = .finite false m ∧ m.count = i.toNat * Double.unitsPerOne) ∧
    (Double.ofNat i.toNat).toText = Text.ofNat i.toNat ∧
    (∀ s : Session σ,
      View.getIndex host o i s = View.getKeyed host o (.number (Double.ofNat i.toNat)) s ∧
      View.getIndex host o i s = View.getProperty host o (Text.ofNat i.toNat) s) ∧
    ∀ (v : Value) (s : Session σ),
      View.setIndex host o i v s =
        View.setKeyed host o (.number (Double.ofNat i.toNat)) v .none s ∧
      View.setIndex host o i v s = View.setProperty host o (Text.ofNat i.toNat) v .none s := by
  have small : i.toNat < 2 ^ 53 := Nat.lt_trans i.toNat_lt (by decide)
  have named := primitiveText?_ofNat small
  have get := Invocation.perform_of_primitive host
    (q := .getKeyed o (.number (Double.ofNat i.toNat))) rfl named
  have set := fun v => Invocation.perform_of_primitive host
    (q := .setKeyed o (.number (Double.ofNat i.toNat)) v .none) rfl named
  exact ⟨Double.ofNat_eq small, Double.toText_ofNat small,
    fun s => ⟨(congrFun get s).symm, rfl⟩, fun v s => ⟨(congrFun (set v) s).symm, rfl⟩⟩

end HostObjects
