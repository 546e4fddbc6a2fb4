import HostObjects.Proofs.Heap.Write
import HostObjects.Proofs.View.Consult
import HostObjects.Proofs.View.Existence

/-!
# Writes

A write is offered to the class of the object first: to the `set` callbacks, to the static values
of the name and to the functions that are found on the object (`Row.offers`).  One of them may
take it, refuse it or fail, and then the heap is as the callbacks left it.  Only a write that none
of them ended goes to the object, and there it changes the one property at most
(`write_goes_last`).

What was written is read again, and a write that was refused has changed nothing that a look-up
could tell (`written_value_is_read`).
-/

namespace HostObjects

open Heap

variable {σ : Type} {host : Host σ} {s s' t : Session σ} {o : Handle} {name : Text} {v : Value}
  {attributes : Attributes} {c : Class}

/-! ### Offers -/

/-- What a static value says to a write: a read-only one ends it, any other leaves it to its
setter. -/
def Host.offer (host : Host σ) (o : Handle) (name : Text) (v : Value) :
    Option StaticValue → Action σ Bool
  | some entry =>
    if entry.attributes.readOnly then pure true else host.poll (.set o name v) entry.setter
  | none => pure false

namespace Row

/-- Whether the first function of the name in some class is found on the object and read-only. -/
def hasReadOnlyFunction (r : Row) (name : Text) : Bool :=
  r.functionClasses.any fun d => (d.function? name).any fun f => f.attributes.readOnly

/-- What is asked before a write: the `set` callback of each class, the first static value of the
name of each class, and whether a function found on the object is read-only. -/
def offers (host : Host σ) (name : Text) (v : Value) (r : Row) : List (Action σ Bool) :=
  r.classes.map (fun d => host.poll (.set r.object name v) (d.callbacks .set)) ++
    (r.classes.map (fun d => host.offer r.object name v (d.value? name)) ++
      [pure (r.hasReadOnlyFunction name)])

end Row

theorem consults_setByCallbacks (ds : List Descriptor) :
    (View.setByCallbacks host o name v ds).Consults
      (ds.map fun d => host.poll (.set o name v) (d.callbacks .set)) := by
  induction ds with
  | nil => exact .nil
  | cons d ds ih =>
      unfold View.setByCallbacks
      rw [List.map_cons]
      cases d.callbacks .set with
      | none => exact ih.skip
      | some f => exact (Action.Consults.single _).bind_bool rfl ih

theorem consults_setByValues (ds : List Descriptor) :
    (View.setByValues host o name v ds).Consults
      (ds.map fun d => host.offer o name v (d.value? name)) := by
  induction ds with
  | nil => exact .nil
  | cons d ds ih =>
      unfold View.setByValues
      rw [List.map_cons]
      cases d.value? name with
      | none => exact ih.skip
      | some entry =>
          dsimp only [Host.offer]
          cases entry.attributes.readOnly with
          | true => exact fun s => .answers rfl (by simp)
          | false =>
              cases entry.setter with
              | none => exact ih.skip
              | some f => exact (Action.Consults.single _).bind_bool rfl ih

theorem consults_setByClass (c : Class) (properties : List Property) :
    (View.setByClass host o name v c).Consults
      (Row.offers host name v ⟨o, some c, properties⟩) :=
  (consults_setByCallbacks c.chain).bind_bool rfl
    ((consults_setByValues c.chain).bind_bool rfl (.single _))

/-! ### Writing to the object -/

/-- The session at the end of an operation that began in `s`: the stack and the classes held are
as they were. -/
def Session.leave (t s : Session σ) : Session σ :=
  ⟨t.heap.cutStack s.heap.stack.size, s.holding, t.host⟩

/-- The session with the heap that an operation left, once dead objects are let go. -/
def Session.after (t : Session σ) (host : Host σ) (h : Heap) : Session σ :=
  Action.settle host (t.withHeap h)

theorem writeOwn_apply (host : Host σ) (o : Handle) (p : Property) (t : Session σ) :
    ∃ r h, AfterWrite (Action.heldOutside host t) o p t.heap r h ∧
      View.writeOwn host o p t = (r, t.after host h) := by
  refine ⟨_, _, afterWrite_putOwn (Action.heldOutside host t) o p t.heap, ?_⟩
  unfold View.writeOwn
  rw [bind_apply, allocating_apply]
  rcases putOwn (Action.heldOutside host t) o p t.heap with ⟨e | landed, h⟩ <;> rfl

/-- A write asks the class of the object, and then goes to the object if nothing ended it. -/
theorem write_apply (host : Host σ) (valid : t.heap.isValid o = true) (p : Property) :
    ∃ ended u,
      Consulted ((t.heap.row o).offers host p.name p.value) (t.hold (t.heap.row o).ofClass.toList)
        ended u ∧
      View.write host o p t =
        match ended with
        | .error e => (.error e, u.release t.holding)
        | .ok true => (.ok (), u.release t.holding)
        | .ok false => View.writeOwn host o p (u.release t.holding) := by
  have ofClass := classOf_row valid
  have here := t.heap.object_row o
  generalize t.heap.row o = row at *
  obtain ⟨q, c?, properties⟩ := row
  dsimp only at ofClass here
  subst here
  unfold View.write
  rw [bind_apply]
  simp only [Action.reading, ofClass]
  cases c? with
  | none => exact ⟨.ok false, t, .passes rfl (.exhausted t), rfl⟩
  | some c =>
      refine ⟨_, _, consults_setByClass c properties (t.hold [c]), ?_⟩
      dsimp only
      rw [bind_apply, holding_apply]
      rcases View.setByClass host q p.name p.value c (t.hold [c]) with ⟨e | _ | _, u⟩ <;> rfl

/-- A write runs with its operands rooted. -/
theorem setProperty_apply (host : Host σ) (name : Text) (v : Value) (attributes : Attributes)
    (valid : s.heap.isValid o = true) :
    View.setProperty host o name v attributes s =
      match View.write host o ⟨name, v, attributes⟩
        (s.withHeap (s.heap.rootAll [.object o, v])) with
      | (r, t) => (r, t.withHeap (t.heap.cutStack s.heap.stack.size)) := by
  have form : View.setProperty host o name v attributes = _ :=
    (Invocation.set o name v attributes).perform_eq_withOperands rfl
  rw [form, withOperands_apply valid]
  simp only [Invocation.operands, Invocation.body, Invocation.returned]
  rcases View.write host o ⟨name, v, attributes⟩ (s.withHeap (s.heap.rootAll [.object o, v]))
    with ⟨_ | _, _⟩ <;> rfl

/-- **A write goes to the object last.**  It is offered to the callbacks, the static values and
the functions of the class in order, and it ends with the first that takes it, refuses it or
fails.  It lands iff none did, the property is not read-only and the heap takes it, and then it
changes that property of the object and nothing else. -/
theorem write_goes_last (host : Host σ) (name : Text) (v : Value) (attributes : Attributes)
    (valid : s.heap.isValid o = true) :
    ∃ ended t,
      Consulted ((s.heap.row o).offers host name v)
        ((s.withHeap (s.heap.rootAll [.object o, v])).hold (s.heap.row o).ofClass.toList)
        ended t ∧
      match ended with
      | .error e => View.setProperty host o name v attributes s = (.error e, t.leave s)
      | .ok true => View.setProperty host o name v attributes s = (.ok (), t.leave s)
      | .ok false => ∃ r h,
          AfterWrite (Action.heldOutside host (t.release s.holding)) o ⟨name, v, attributes⟩
            t.heap r h ∧
          View.setProperty host o name v attributes s =
            (r, ((t.release s.holding).after host h).leave s) := by
  have table := s.heap.sameTable_rootAll [.object o, v]
  have rooted : (s.heap.rootAll [.object o, v]).isValid o = true := by rwa [table.isValid]
  have row : (s.heap.rootAll [.object o, v]).row o = s.heap.row o := by
    rw [Heap.row, Heap.row, table.object]
  obtain ⟨ended, t, consulted, written⟩ := write_apply host
    (t := s.withHeap (s.heap.rootAll [.object o, v])) rooted ⟨name, v, attributes⟩
  rw [setProperty_apply host name v attributes valid, written]
  rw [show (s.withHeap (s.heap.rootAll [.object o, v])).heap.row o = s.heap.row o from row]
    at consulted
  refine ⟨ended, t, consulted, ?_⟩
  rcases ended with e | _ | _
  · rfl
  · obtain ⟨r, h, after, run⟩ := writeOwn_apply host o ⟨name, v, attributes⟩
      (t.release s.holding)
    have run : View.writeOwn host o ⟨name, v, attributes⟩
        (t.release (s.withHeap (s.heap.rootAll [.object o, v])).holding) = _ := run
    refine ⟨r, h, after, ?_⟩
    rw [run, Session.after, settle_eq]
    cases r <;> rfl
  · rfl

/-- A class without an automatic prototype: its `set` callback and that of its parent, and a
value of which the name is taken twice, the second time read-only. -/
def offeredClass : Class where
  own :=
    { id := ⟨1⟩, version := 0, name := Text.ofString "Offered", automatic := false
      values := [⟨Text.ofString "v", .none, none, some ⟨9⟩⟩,
        ⟨Text.ofString "v", ⟨true, false, false⟩, none, none⟩]
      functions := []
      callbacks := fun op => if op = .set then some ⟨7⟩ else none }
  ancestors :=
    [{ id := ⟨0⟩, version := 0, name := Text.ofString "Base", automatic := true
       values := [], functions := []
       callbacks := fun op => if op = .set then some ⟨8⟩ else none }]

/-- A session with an instance. -/
def offeredSession : Session (List Nat) :=
  ⟨after (new ⟨0⟩ .standard .synchronous)
    (turnsOf [.allocInstance offeredClass none ⟨⟨0⟩, 0, 0⟩]), [], []⟩

/-- There both callbacks and the setter decline, in this order, and the write lands. -/
theorem write_goes_last_offered :
    (∃ ended t,
      Consulted
        ((offeredSession.heap.row ⟨⟨0⟩, 2, 0⟩).offers recordingHost (Text.ofString "v") .null)
        ((offeredSession.withHeap (offeredSession.heap.rootAll [.object ⟨⟨0⟩, 2, 0⟩, .null])).hold
          (offeredSession.heap.row ⟨⟨0⟩, 2, 0⟩).ofClass.toList)
        ended t ∧
      match ended with
      | .error e => View.setProperty recordingHost ⟨⟨0⟩, 2, 0⟩ (Text.ofString "v") .null .none
          offeredSession = (.error e, t.leave offeredSession)
      | .ok true => View.setProperty recordingHost ⟨⟨0⟩, 2, 0⟩ (Text.ofString "v") .null .none
          offeredSession = (.ok (), t.leave offeredSession)
      | .ok false => ∃ r h,
          AfterWrite (Action.heldOutside recordingHost (t.release offeredSession.holding))
            ⟨⟨0⟩, 2, 0⟩ ⟨Text.ofString "v", .null, .none⟩ t.heap r h ∧
          View.setProperty recordingHost ⟨⟨0⟩, 2, 0⟩ (Text.ofString "v") .null .none
              offeredSession =
            (r, ((t.release offeredSession.holding).after recordingHost h).leave offeredSession)) ∧
    (View.setProperty recordingHost ⟨⟨0⟩, 2, 0⟩ (Text.ofString "v") .null .none
      offeredSession).1 = .ok () ∧
    (View.setProperty recordingHost ⟨⟨0⟩, 2, 0⟩ (Text.ofString "v") .null .none
      offeredSession).2.host = [9, 8, 7] ∧
    (View.setProperty recordingHost ⟨⟨0⟩, 2, 0⟩ (Text.ofString "v") .null .none
        offeredSession).2.heap.ownProperty ⟨⟨0⟩, 2, 0⟩ (Text.ofString "v") =
      .ok (some ⟨Text.ofString "v", .null, .none⟩) :=
  ⟨write_goes_last recordingHost (Text.ofString "v") .null .none (by decide +kernel),
    by decide +kernel, by decide +kernel, by decide +kernel⟩

/-! ### Reading what was written -/

/-- The class of the object has no callback for the operation and no static value of the name. -/
def Row.Unanswered (op : Operation) (name : Text) (r : Row) : Prop :=
  ∀ d ∈ r.classes, d.callbacks op = none ∧ d.value? name = none

theorem getAt_of_unanswered {q : Property} (own : t.heap.ownProperty o name = .ok (some q))
    (unanswered : (t.heap.row o).Unanswered .get name) :
    View.getAt host o name t = (.ok (some q.value), t) := by
  have ofClass := classOf_row (isValid_of_ownProperty own)
  have read : t.heap.getOwn o name = .ok (some q.value) := by
    rw [Heap.getOwn, own]
    rfl
  unfold View.getAt
  rw [bind_apply]
  simp only [Action.reading, ofClass]
  unfold Row.Unanswered Row.classes at unanswered
  cases c? : (t.heap.row o).ofClass with
  | none => exact Prod.ext read rfl
  | some c =>
      rw [c?] at unanswered
      dsimp only
      rw [holding_apply, getByClass_of_none (fun d mem => (unanswered d mem).1)
        fun d mem => (unanswered d mem).2]
      cases c.onInstance.findSome? fun d => d.function? name with
      | none => exact Prod.ext read rfl
      | some entry =>
          dsimp only
          rw [map_apply, instanceFunction_of_own (s := t.hold [c]) read]
          rfl

/-- **An own property answers**, if no callback and no static value does. -/
theorem getProperty_of_unanswered {q : Property}
    (own : s.heap.ownProperty o name = .ok (some q))
    (unanswered : (s.heap.row o).Unanswered .get name) :
    (View.getProperty host o name s).1 = .ok q.value := by
  have table := s.heap.sameTable_rootAll [.object o]
  have here : View.getAt host o name (s.on o) = (.ok (some q.value), s.on o) := by
    refine getAt_of_unanswered ?_ ?_
    · show (s.heap.rootAll [.object o]).ownProperty o name = _
      rw [ownProperty, table.object]
      exact own
    · rw [s.row_on]
      exact unanswered
  rw [getProperty_of_answer (isValid_of_ownProperty own) here]

/-- A write that the class does not answer is ended by a read-only function or goes to the
object. -/
theorem write_of_unanswered (host : Host σ) (valid : t.heap.isValid o = true) (p : Property)
    (unanswered : (t.heap.row o).Unanswered .set p.name) :
    View.write host o p t =
      if (t.heap.row o).hasReadOnlyFunction p.name then (.ok (), t)
      else View.writeOwn host o p t := by
  have ofClass := classOf_row valid
  unfold View.write
  rw [bind_apply]
  simp only [Action.reading, ofClass]
  unfold Row.Unanswered Row.classes at unanswered
  unfold Row.hasReadOnlyFunction Row.functionClasses
  cases c? : (t.heap.row o).ofClass with
  | none => rfl
  | some c =>
      rw [c?] at unanswered
      have ends : View.setByClass host o p.name p.value c =
          pure (View.hasReadOnlyFunction c p.name) :=
        setByClass_of_none (fun d mem => (unanswered d mem).1) fun d mem => (unanswered d mem).2
      dsimp only
      rw [bind_apply, ends, holding_pure]
      show (if View.hasReadOnlyFunction c p.name = true then pure () else View.writeOwn host o p :
        Action σ Unit) t = if View.hasReadOnlyFunction c p.name = true then _ else _
      split <;> rfl

/-- Whether a write of the name is refused at an object: the own property or a function that is
found on the object is read-only. -/
def Heap.refusesWrite (h : Heap) (o : Handle) (name : Text) : Bool :=
  h.isReadOnly o name || (h.row o).hasReadOnlyFunction name

theorem writeOwn_of_readOnly {p : Property} (storable : t.heap.checkStorable p.value = .ok ())
    (readOnly : t.heap.isReadOnly o p.name = true) :
    View.writeOwn host o p t = (.ok (), t.after host t.heap) := by
  unfold View.writeOwn
  rw [bind_apply, allocating_apply, putOwn_of_readOnly storable readOnly]
  rfl

/-- A write that the class does not answer is ended by a read-only function or goes to the
object, with its operands rooted. -/
theorem setProperty_of_unanswered (host : Host σ) (v : Value) (attributes : Attributes)
    (valid : s.heap.isValid o = true) (unanswered : (s.heap.row o).Unanswered .set name) :
    View.setProperty host o name v attributes s =
      if (s.heap.row o).hasReadOnlyFunction name then (.ok (), s)
      else
        match View.writeOwn host o ⟨name, v, attributes⟩
          (s.withHeap (s.heap.rootAll [.object o, v])) with
        | (r, t) => (r, t.withHeap (t.heap.cutStack s.heap.stack.size)) := by
  have table := s.heap.sameTable_rootAll [.object o, v]
  have row : (s.withHeap (s.heap.rootAll [.object o, v])).heap.row o = s.heap.row o := by
    show (s.heap.rootAll [.object o, v]).row o = _
    rw [Heap.row, Heap.row, table.object]
  have written := write_of_unanswered host
    (t := s.withHeap (s.heap.rootAll [.object o, v])) (o := o) (p := ⟨name, v, attributes⟩)
    (by rwa [Session.withHeap, table.isValid]) (by rwa [row])
  rw [row] at written
  rw [setProperty_apply host name v attributes valid, written]
  dsimp only
  cases (s.heap.row o).hasReadOnlyFunction name with
  | true => exact congrArg (fun h => (_, s.withHeap h)) (s.heap.cutStack_rootAll _)
  | false => rfl

/-- A write that is refused answers and leaves every object as it was.  If the own property does
not refuse it, it leaves the session as it was. -/
theorem setProperty_of_refused (host : Host σ) (attributes : Attributes)
    (valid : s.heap.isValid o = true) (unanswered : (s.heap.row o).Unanswered .set name)
    (storable : ∀ p, v = .object p → s.heap.isValid p = true)
    (refused : s.heap.refusesWrite o name = true) :
    (View.setProperty host o name v attributes s).1 = .ok () ∧
      (View.setProperty host o name v attributes s).2.heap.object = s.heap.object ∧
      (s.heap.isReadOnly o name = false →
        (View.setProperty host o name v attributes s).2 = s) := by
  have table := s.heap.sameTable_rootAll [.object o, v]
  rw [setProperty_of_unanswered host v attributes valid unanswered]
  cases function : (s.heap.row o).hasReadOnlyFunction name with
  | true => exact ⟨rfl, rfl, fun _ => rfl⟩
  | false =>
      have own : s.heap.isReadOnly o name = true := by
        rwa [refusesWrite, function, Bool.or_false] at refused
      have readOnly : (s.heap.rootAll [.object o, v]).isReadOnly o name = true := by
        rwa [isReadOnly, ownProperty, table.object]
      have fits : (s.heap.rootAll [.object o, v]).checkStorable v = .ok () := by
        refine checkStorable_eq_ok_iff.mpr fun p value => ?_
        rw [table.isValid]
        exact storable p value
      rw [if_neg Bool.false_ne_true, writeOwn_of_readOnly fits readOnly, Session.after, settle_eq]
      exact ⟨rfl, object_congr rfl rfl, fun no => by rw [own] at no; cases no⟩

/-- A write that is not refused leaves, if it answers, the value in the own property, and the
class of the object as it was. -/
theorem setProperty_of_allowed (valid : s.heap.isValid o = true)
    (unanswered : (s.heap.row o).Unanswered .set name)
    (allowed : s.heap.refusesWrite o name = false)
    (answered : (View.setProperty host o name v attributes s).1 = .ok ()) :
    ∃ q, q.value = v ∧
      (View.setProperty host o name v attributes s).2.heap.ownProperty o name = .ok (some q) ∧
      ((View.setProperty host o name v attributes s).2.heap.row o).ofClass =
        (s.heap.row o).ofClass := by
  have table := s.heap.sameTable_rootAll [.object o, v]
  rw [refusesWrite, Bool.or_eq_false_iff] at allowed
  have open_ : (s.heap.rootAll [.object o, v]).isReadOnly o name = false := by
    rw [isReadOnly, ownProperty, table.object]
    exact allowed.1
  obtain ⟨r, h, after, run⟩ := writeOwn_apply host o ⟨name, v, attributes⟩
    (s.withHeap (s.heap.rootAll [.object o, v]))
  have state : ∃ t : Session σ, t.heap.object = h.object ∧
      View.setProperty host o name v attributes s = (r, t) := by
    rw [setProperty_of_unanswered host v attributes valid unanswered, allowed.2,
      if_neg Bool.false_ne_true, run, Session.after, settle_eq]
    exact ⟨_, object_congr rfl rfl, rfl⟩
  obtain ⟨t, same, state⟩ := state
  rw [state] at answered ⊢
  obtain ⟨roomy, room, wrote⟩ := after.landed answered open_
  obtain ⟨old, own, written⟩ := wrote.written
  obtain ⟨obj, found⟩ := isValid_iff.mp (isValid_of_ownProperty own)
  obtain ⟨ps, now, -⟩ := wrote.object obj found
  have before : s.heap.object o = .ok obj := by
    rw [← table.object]
    exact room.object found
  refine ⟨writtenOver ⟨name, v, attributes⟩ old, ?_, ?_, ?_⟩
  · cases old <;> rfl
  · rw [← written, ownProperty, ownProperty, same]
  · rw [Heap.row, Heap.row, same, now, before]

/-- **What was written is read again.**  On an object whose class answers neither look-ups nor
writes of the name, a write that is not refused and does not fail makes a look-up give its value.
A write that is refused answers, leaves every object as it was, and a look-up gives what it would
have given without the write. -/
theorem written_value_is_read (host : Host σ) (name : Text) (v : Value) (attributes : Attributes)
    (valid : s.heap.isValid o = true)
    (getting : (s.heap.row o).Unanswered .get name) (setting : (s.heap.row o).Unanswered .set name)
    (storable : ∀ p, v = .object p → s.heap.isValid p = true) :
    (s.heap.refusesWrite o name = false →
      (View.setProperty host o name v attributes s).1 = .ok () →
      (View.getProperty host o name (View.setProperty host o name v attributes s).2).1 = .ok v) ∧
    (s.heap.refusesWrite o name = true →
      (View.setProperty host o name v attributes s).1 = .ok () ∧
      (View.setProperty host o name v attributes s).2.heap.object = s.heap.object ∧
      (View.getProperty host o name (View.setProperty host o name v attributes s).2).1 =
        (View.getProperty host o name s).1) := by
  constructor
  · intro allowed answered
    obtain ⟨q, rfl, own, ofClass⟩ := setProperty_of_allowed valid setting allowed answered
    refine getProperty_of_unanswered own ?_
    unfold Row.Unanswered Row.classes
    rw [ofClass]
    exact getting
  · intro refused
    obtain ⟨answered, objects, still⟩ :=
      setProperty_of_refused host attributes valid setting storable refused
    refine ⟨answered, objects, ?_⟩
    cases readOnly : s.heap.isReadOnly o name with
    | false => rw [still readOnly]
    | true =>
        obtain ⟨q, own⟩ : ∃ q, s.heap.ownProperty o name = .ok (some q) := by
          unfold isReadOnly at readOnly
          split at readOnly
          · next q own => exact ⟨q, own⟩
          · cases readOnly
        have after : (View.setProperty host o name v attributes s).2.heap.ownProperty o name =
            .ok (some q) := by
          rw [ownProperty, objects]
          exact own
        rw [getProperty_of_unanswered own getting, getProperty_of_unanswered after]
        rw [Heap.row, objects]
        exact getting

/-- A class without an automatic prototype, with a function and a read-only one. -/
def guardedClass : Class :=
  ⟨{ id := ⟨0⟩, version := 0, name := Text.ofString "Guarded", automatic := false, values := []
     functions := [⟨Text.ofString "f", .none, ⟨0⟩⟩, ⟨Text.ofString "g", ⟨true, false, false⟩, ⟨1⟩⟩]
     callbacks := fun _ => none }, []⟩

/-- A session with an instance that has a read-only property. -/
def guardedSession : Session Unit :=
  ⟨after (new ⟨0⟩ .standard .synchronous)
    (turnsOf [.allocInstance guardedClass none ⟨⟨0⟩, 0, 0⟩,
      .defineOwn ⟨⟨0⟩, 2, 0⟩ ⟨Text.ofString "r", .null, ⟨true, false, false⟩⟩]), [], ()⟩

/-- There the function gives way to what is written, and the read-only function and the read-only
property do not. -/
theorem written_value_is_read_guarded :
    (View.getProperty idleHost ⟨⟨0⟩, 2, 0⟩ (Text.ofString "f")
      (View.setProperty idleHost ⟨⟨0⟩, 2, 0⟩ (Text.ofString "f") (.object ⟨⟨0⟩, 2, 0⟩) .none
        guardedSession).2).1 = .ok (.object ⟨⟨0⟩, 2, 0⟩) ∧
    ∀ name ∈ [Text.ofString "g", Text.ofString "r"],
      (View.setProperty idleHost ⟨⟨0⟩, 2, 0⟩ name (.object ⟨⟨0⟩, 2, 0⟩) .none
        guardedSession).1 = .ok () ∧
      (View.setProperty idleHost ⟨⟨0⟩, 2, 0⟩ name (.object ⟨⟨0⟩, 2, 0⟩) .none
        guardedSession).2.heap.object = guardedSession.heap.object ∧
      (View.getProperty idleHost ⟨⟨0⟩, 2, 0⟩ name
        (View.setProperty idleHost ⟨⟨0⟩, 2, 0⟩ name (.object ⟨⟨0⟩, 2, 0⟩) .none
          guardedSession).2).1 = (View.getProperty idleHost ⟨⟨0⟩, 2, 0⟩ name guardedSession).1 := by
  have valid : guardedSession.heap.isValid ⟨⟨0⟩, 2, 0⟩ = true := by decide +kernel
  have classes : (guardedSession.heap.row ⟨⟨0⟩, 2, 0⟩).classes = guardedClass.chain := by rfl
  have unanswered : ∀ op name, (guardedSession.heap.row ⟨⟨0⟩, 2, 0⟩).Unanswered op name := by
    intro op name
    rw [Row.Unanswered, classes]
    simp [guardedClass, Class.chain, Descriptor.value?]
  have reads := fun name => written_value_is_read idleHost name (.object ⟨⟨0⟩, 2, 0⟩) .none valid
    (unanswered _ _) (unanswered _ _) fun p value => by cases value; exact valid
  refine ⟨(reads _).1 (by decide +kernel) (by decide +kernel), fun name mem => (reads name).2 ?_⟩
  revert name
  decide +kernel

end HostObjects
