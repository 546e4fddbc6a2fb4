import HostObjects.Proofs.View.Invocation

/-!
# Properties named by values

An operation that names its property by a value converts the value first and is then
an operation on the name (`perform_keyed`).  Converting an object runs a callback,
and while it runs only the value to be written is rooted: the target is not.

So what is written survives, and the target survives exactly if it outlives the
conversion (`keyed_target_survives_iff`).  It does if the caller has rooted it, or if
no callback runs for a key of its own.  A collection in the callback takes any other
target, and the operation then fails for its stale handle
(`not_keyed_target_survives`).
-/

namespace HostObjects

open Heap

variable {σ α : Type} {host : Host σ} {s : Session σ}

namespace Invocation

/-- Of an operation that names its property by a value: its target, the value and what
it writes. -/
def keyed? : {α : Type} → Invocation α → Option (Handle × Value × Option Value)
  | _, hasKeyed o key | _, getKeyed o key | _, deleteKeyed o key => some (o, key, none)
  | _, setKeyed o key v _ => some (o, key, some v)
  | _, _ => none

/-- The operation with its property named. -/
def named : {α : Type} → Invocation α → Text → Invocation α
  | _, hasKeyed o _, name => has o name
  | _, getKeyed o _, name => get o name
  | _, deleteKeyed o _, name => delete o name
  | _, setKeyed o _ v attributes, name => set o name v attributes
  | _, q, _ => q

end Invocation

/-- Finds the name that a value gives, while what is to be written is rooted. -/
def View.naming (host : Host σ) (key : Value) : Option Value → Action σ Text
  | some v => Action.inScope do
    Action.rootOperand v
    View.toText host key
  | none => View.toText host key

namespace Invocation

variable {q : Invocation α} {o : Handle} {key : Value} {written : Option Value}

/-- **An operation on a key is an operation on a name** that is found first. -/
theorem perform_keyed (keyed : q.keyed? = some (o, key, written)) :
    q.perform host =
      View.naming host key written >>= fun name => (q.named name).perform host := by
  cases q <;> cases keyed <;> rfl

theorem target?_named (keyed : q.keyed? = some (o, key, written)) (name : Text) :
    (q.named name).target? = some o := by
  cases q <;> cases keyed <;> rfl

theorem mem_operands_named (keyed : q.keyed? = some (o, key, written)) (name : Text) :
    .object o ∈ (q.named name).operands ∧
      ∀ v, written = some v → v ∈ (q.named name).operands := by
  cases q <;> cases keyed <;> simp [named, operands]

end Invocation

/-! ### While the name is found -/

theorem naming_some (host : Host σ) (key v : Value) :
    View.naming host key (some v) =
      Action.inScope (View.rootAll [v] >>= fun _ => View.toText host key) := by
  simp [View.naming, View.rootAll]

theorem above_toText (lawful : host.Lawful) (v : Value) : (View.toText host v).Above :=
  Action.above_of_keeps fun start => keeps_toText (enduring_within host start).lingering
    (lawful.keeps (unbrokenAbove_within start)) v

theorem above_naming (lawful : host.Lawful) (key : Value) (written : Option Value) :
    (View.naming host key written).Above := by
  cases written with
  | none => exact above_toText lawful key
  | some v =>
      rw [naming_some]
      refine Action.above_of_keeps fun start =>
        keeps_inScope (enduring_within host start).lingering ?_
      exact ((above_rootAll host [v]).bind fun _ => above_toText lawful key).keeps
        (unbrokenAbove_within start)

/-- What is to be written outlives the conversion of the key. -/
theorem isValid_naming_written (lawful : host.Lawful) (ok : Intact s.heap) (key : Value)
    {p : Handle} (valid : s.heap.isValid p = true) :
    (View.naming host key (some (.object p)) s).2.heap.isValid p = true := by
  rw [naming_some]
  exact (spares_scope host (above_toText lawful key) [.object p] s).isValid ok p
    (List.mem_singleton.mpr rfl) valid

/-- A key that needs no callback of another object: a primitive, or the object that is
asked about. -/
def isOwnKey (o : Handle) (key : Value) : Prop := key.object? = none ∨ key = .object o

/-- An object outlives the conversion of such a key. -/
theorem isValid_toText (lawful : host.Lawful) {o : Handle} {key : Value}
    (own : isOwnKey o key) (ok : Intact s.heap) (valid : s.heap.isValid o = true) :
    (View.toText host key s).2.heap.isValid o = true := by
  cases key with
  | object p =>
      obtain missing | same := own
      · cases missing
      cases same
      have converted : Meets (· = s) (Action.inScope (View.convert host o .string))
          (fun _ s' => s'.heap.isValid o = true) fun s' => s'.heap.isValid o = true := by
        refine Meets.of_state ?_
        rintro s rfl
        show ((Invocation.convert o .string).perform host s).2.heap.isValid o = true
        exact (Invocation.convert o .string).isValid_perform lawful ok rfl
          (List.mem_singleton.mpr rfl) valid
      have named : Meets (· = s) (View.toText host (.object o))
          (fun _ s' => s'.heap.isValid o = true) fun s' => s'.heap.isValid o = true := by
        refine converted.bind fun v => ?_
        cases v with
        | object p => exact Preserves.bind (keeps_reading _) fun _ => Preserves.pure _
        | _ => exact Preserves.pure _
      exact named.state rfl
  | _ => exact valid

theorem isValid_naming (lawful : host.Lawful) {o : Handle} {key : Value}
    (own : isOwnKey o key) (written : Option Value) (ok : Intact s.heap)
    (valid : s.heap.isValid o = true) :
    (View.naming host key written s).2.heap.isValid o = true := by
  cases written with
  | none => exact isValid_toText lawful own ok valid
  | some v =>
      rw [naming_some]
      have same := s.heap.sameTable_rootAll [v]
      have rooted : (View.toText host key (s.withHeap (s.heap.rootAll [v]))).2.heap.isValid o =
          true := by
        refine isValid_toText lawful own (ok.congr same) ?_
        show (s.heap.rootAll [v]).isValid o = true
        rwa [same.isValid]
      have run : (View.rootAll [v] >>= fun _ => View.toText host key) s =
          View.toText host key (s.withHeap (s.heap.rootAll [v])) := by
        rw [bind_apply, rootAll_apply]
      show ((View.rootAll [v] >>= fun _ => View.toText host key) s).2.heap.isValid o = true
      rwa [run]

/-! ### The operation -/

/-- **What becomes of the operands of an operation on a key.**  What it writes
survives.  Its target is valid at the end exactly if it outlived the conversion of the
key; if it did not, and the conversion succeeded, the operation fails for the stale
handle.  A target that the caller has rooted, and any target where the key is a
primitive or the target itself, outlives the conversion. -/
theorem keyed_target_survives_iff (lawful : host.Lawful) (reachable : Reachable s.heap)
    (q : Invocation α) {o : Handle} {key : Value} {written : Option Value}
    (keyed : q.keyed? = some (o, key, written)) (valid : s.heap.isValid o = true) :
    (∀ p, written = some (.object p) → s.heap.isValid p = true →
      (q.perform host s).2.heap.isValid p = true) ∧
    ((q.perform host s).2.heap.isValid o = true ↔
      (View.naming host key written s).2.heap.isValid o = true) ∧
    ((View.naming host key written s).2.heap.isValid o = false →
      ∀ name, (View.naming host key written s).1 = .ok name →
        (q.perform host s).1 = .error .staleHandle) ∧
    (.object o ∈ s.heap.stack ∨ isOwnKey o key →
      (View.naming host key written s).2.heap.isValid o = true) := by
  have within := above_naming lawful key written s
  have survives : .object o ∈ s.heap.stack ∨ isOwnKey o key →
      (View.naming host key written s).2.heap.isValid o = true := by
    rintro (rooted | own)
    · exact within.isValid reachable.intact rooted valid
    · exact isValid_naming lawful own written reachable.intact valid
  have writes : ∀ p, written = some (.object p) → s.heap.isValid p = true →
      (View.naming host key written s).2.heap.isValid p = true := by
    rintro p rfl valid
    exact isValid_naming_written lawful reachable.intact key valid
  rw [Invocation.perform_keyed keyed, bind_apply]
  rcases run : View.naming host key written s with ⟨e | name, s'⟩
  · rw [run] at survives writes
    refine ⟨writes, Iff.rfl, fun _ name eq => ?_, survives⟩
    cases eq
  · rw [run] at survives writes within
    dsimp only at survives writes within ⊢
    have ok : Intact s'.heap := within.intact reachable.intact
    have target := Invocation.target?_named keyed name
    obtain ⟨onTarget, onWritten⟩ := Invocation.mem_operands_named keyed name
    have own : o.heap = s'.heap.id :=
      (isValid_iff_slot.mp valid).1.trans within.id.symm
    have stale : s'.heap.isValid o = false →
        (q.named name).perform host s' = (.error .staleHandle, s') := by
      intro gone
      rw [(q.named name).perform_of_invalid target gone, rejection, if_pos own]
    refine ⟨fun p eq valid => ?_, ⟨fun after => ?_, fun before => ?_⟩, fun gone _ _ => ?_,
      survives⟩
    · exact (q.named name).isValid_perform lawful ok target (onWritten _ eq)
        (writes p eq valid)
    · cases before : s'.heap.isValid o with
      | true => rfl
      | false =>
          rw [stale before] at after
          rwa [before] at after
    · exact (q.named name).isValid_perform lawful ok target onTarget before
    · rw [stale gone]

/-! ### A key whose conversion collects -/

/-- A class whose objects convert by a callback. -/
def convertibleClass : Class where
  own :=
    { id := ⟨0⟩, version := 0, name := Text.ofString "Key", automatic := false
      values := [], functions := []
      callbacks := fun op => if op = .convert then some ⟨0⟩ else none }
  ancestors := []

/-- A heap with an object of the class and two plain objects.  Nothing is rooted. -/
def keyHeap : Heap :=
  after (new ⟨0⟩ .standard .synchronous)
    (turnsOf [.allocInstance convertibleClass none ⟨⟨0⟩, 0, 0⟩, .allocPlain, .allocPlain])

theorem reachable_keyHeap : Reachable keyHeap := (Reachable.new _ _ _).after _

/-- The conversion of the key collects.  What was to be written is there after the
write, its target is gone, and the write fails. -/
theorem keyed_target_survives_iff_keyHeap :
    let write := Invocation.setKeyed ⟨⟨0⟩, 3, 0⟩ (.object ⟨⟨0⟩, 2, 0⟩) (.object ⟨⟨0⟩, 4, 0⟩) .none
    let done := write.perform collectingHost ⟨keyHeap, [], ()⟩
    done.1 = .error .staleHandle ∧ done.2.heap.isValid ⟨⟨0⟩, 3, 0⟩ = false ∧
      done.2.heap.isValid ⟨⟨0⟩, 4, 0⟩ = true := by
  intro write done
  have keyed : write.keyed? =
      some (⟨⟨0⟩, 3, 0⟩, .object ⟨⟨0⟩, 2, 0⟩, some (.object ⟨⟨0⟩, 4, 0⟩)) := rfl
  obtain ⟨writes, iff, stale, -⟩ := keyed_target_survives_iff lawful_collectingHost
    (s := ⟨keyHeap, [], ()⟩) reachable_keyHeap write keyed (by decide +kernel)
  have gone : (View.naming collectingHost (.object ⟨⟨0⟩, 2, 0⟩) (some (.object ⟨⟨0⟩, 4, 0⟩))
      ⟨keyHeap, [], ()⟩).2.heap.isValid ⟨⟨0⟩, 3, 0⟩ = false := by decide +kernel
  refine ⟨stale gone (Text.ofString "[object Key]") (by decide +kernel), ?_,
    writes _ rfl (by decide +kernel)⟩
  exact Bool.eq_false_iff.mpr fun valid => by simp [iff.mp valid] at gone

/-- **A target need not survive the conversion of the key.**  It is valid when the test
starts; the test fails, and it is gone. -/
theorem not_keyed_target_survives :
    let test := Invocation.hasKeyed ⟨⟨0⟩, 3, 0⟩ (.object ⟨⟨0⟩, 2, 0⟩)
    let done := test.perform collectingHost ⟨keyHeap, [], ()⟩
    collectingHost.Lawful ∧ Reachable keyHeap ∧ keyHeap.isValid ⟨⟨0⟩, 3, 0⟩ = true ∧
      done.1 = .error .staleHandle ∧ done.2.heap.isValid ⟨⟨0⟩, 3, 0⟩ = false :=
  ⟨lawful_collectingHost, reachable_keyHeap, by decide +kernel, by decide +kernel,
    by decide +kernel⟩

end HostObjects
