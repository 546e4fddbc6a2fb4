import HostObjects.Proofs.Heap.Delete
import HostObjects.Proofs.View.Write

/-!
# Deletions

A deletion is refused before anyone is asked if something that the object has under the name is
permanent: a static value of its classes, a function that is found on the object, or the own
property (`Row.refusesDelete`).  If it is not refused, the `delete` callbacks are asked, and one of
them may take it or fail.  Only a deletion that none of them ended goes to the object, and what the
callbacks did to the property meanwhile counts there: it may be permanent by then
(`delete_goes_last`).
-/

namespace HostObjects

open Heap

variable {σ : Type} {host : Host σ} {s s' t : Session σ} {o : Handle} {name : Text}

/-! ### Refusals -/

/-- Whether something that the object has under the name is permanent. -/
def Row.refusesDelete (r : Row) (name : Text) : Bool :=
  (r.entries name).any Attributes.permanent

/-- The own property is permanent iff its name has a permanent property in the row. -/
theorem Heap.isPermanent_row {h : Heap} (valid : h.isValid o = true) (unrepeated : h.Unrepeated) :
    h.isPermanent o name = true ↔
      ∃ p ∈ (h.row o).properties, p.name = name ∧ p.attributes.permanent = true := by
  obtain ⟨obj, found⟩ := isValid_iff.mp valid
  have row : (h.row o).properties = obj.properties := by rw [Heap.row, found]
  rw [isPermanent, ownProperty_of_object found, row]
  constructor
  · intro permanent
    split at permanent
    · next p own =>
        have there := Except.ok.inj own
        exact ⟨p, List.mem_of_find?_eq_some there, by simpa using List.find?_some there, permanent⟩
    · cases permanent
  · rintro ⟨p, mem, rfl, permanent⟩
    rw [Property.find?_of_mem (unrepeated o obj found) mem]
    exact permanent

/-- A deletion is refused by a class of the object or by the own property. -/
theorem refusesDelete_iff (valid : t.heap.isValid o = true) (unrepeated : t.heap.Unrepeated)
    (name : Text) :
    (t.heap.row o).refusesDelete name = true ↔
      (∃ c, (t.heap.row o).ofClass = some c ∧ View.hasPermanentEntry c name = true) ∨
        t.heap.isPermanent o name = true := by
  have declared : (∃ c, (t.heap.row o).ofClass = some c ∧
      View.hasPermanentEntry c name = true) ↔
      (∃ d ∈ (t.heap.row o).classes, ∃ v, d.value? name = some v ∧ v.attributes.permanent = true) ∨
        ∃ d ∈ (t.heap.row o).functionClasses, ∃ f,
          d.function? name = some f ∧ f.attributes.permanent = true := by
    unfold Row.classes Row.functionClasses View.hasPermanentEntry
    cases (t.heap.row o).ofClass with
    | none => simp
    | some c => simp [Option.any_eq_true]
  rw [Row.refusesDelete, List.any_eq_true, isPermanent_row valid unrepeated, declared]
  simp only [Row.mem_entries]
  constructor
  · rintro ⟨a, ⟨d, mem, v, found, rfl⟩ | ⟨d, mem, f, found, rfl⟩ | ⟨p, mem, named, rfl⟩, permanent⟩
    · exact Or.inl (Or.inl ⟨d, mem, v, found, permanent⟩)
    · exact Or.inl (Or.inr ⟨d, mem, f, found, permanent⟩)
    · exact Or.inr ⟨p, mem, named, permanent⟩
  · rintro ((⟨d, mem, v, found, permanent⟩ | ⟨d, mem, f, found, permanent⟩) |
      ⟨p, mem, named, permanent⟩)
    · exact ⟨_, Or.inl ⟨d, mem, v, found, rfl⟩, permanent⟩
    · exact ⟨_, Or.inr (Or.inl ⟨d, mem, f, found, rfl⟩), permanent⟩
    · exact ⟨_, Or.inr (Or.inr ⟨p, mem, named, rfl⟩), permanent⟩

/-! ### Offers -/

/-- What is asked before a deletion: the `delete` callback of each class. -/
def Row.deletions (host : Host σ) (name : Text) (r : Row) : List (Action σ Bool) :=
  r.classes.map fun d => host.poll (.delete r.object name) (d.callbacks .delete)

theorem consults_deleteByCallbacks (ds : List Descriptor) :
    (View.deleteByCallbacks host o name ds).Consults
      (ds.map fun d => host.poll (.delete o name) (d.callbacks .delete)) := by
  induction ds with
  | nil => exact .nil
  | cons d ds ih =>
      unfold View.deleteByCallbacks
      rw [List.map_cons]
      cases d.callbacks .delete with
      | none => exact ih.skip
      | some f => exact (Action.Consults.single _).bind_bool rfl ih

/-- A permanent property ends a deletion before anyone is asked. -/
theorem deleteThrough_of_permanent (permanent : t.heap.isPermanent o name = true)
    (ds : List Descriptor) : View.deleteThrough host o name ds t = (.ok false, t) := by
  unfold isPermanent at permanent
  split at permanent
  · next p own =>
      have read : t.heap.ownAttributes o name = .ok (some p.attributes) := by
        rw [ownAttributes, own]
        rfl
      unfold View.deleteThrough
      rw [bind_apply]
      simp only [Action.reading, read, Option.any_some, permanent, if_pos]
      rfl
  · cases permanent

/-- Any other is offered to the callbacks, and then goes to the object if nothing ended it. -/
theorem deleteThrough_apply (host : Host σ) (valid : t.heap.isValid o = true)
    (open_ : t.heap.isPermanent o name = false) (ds : List Descriptor) :
    ∃ ended u,
      Consulted (ds.map fun d => host.poll (.delete o name) (d.callbacks .delete)) t ended u ∧
      View.deleteThrough host o name ds t =
        match ended with
        | .error e => (.error e, u)
        | .ok true => (.ok true, u)
        | .ok false => ((deleteOwn o name u.heap).1, u.withHeap (deleteOwn o name u.heap).2) := by
  refine ⟨_, _, consults_deleteByCallbacks ds t, ?_⟩
  obtain ⟨obj, found⟩ := isValid_iff.mp valid
  have own := ownProperty_of_object found name
  have read : ∃ a, t.heap.ownAttributes o name = .ok a ∧ a.any Attributes.permanent = false := by
    rw [isPermanent, own] at open_
    rw [ownAttributes, own]
    refine ⟨_, rfl, ?_⟩
    cases there : Property.find? obj.properties name with
    | none => rfl
    | some p =>
        rw [there] at open_
        exact open_
  obtain ⟨a, read, open_⟩ := read
  unfold View.deleteThrough
  rw [bind_apply]
  simp only [Action.reading, read, open_]
  rw [if_neg Bool.false_ne_true, bind_apply]
  rcases View.deleteByCallbacks host o name ds t with ⟨e | _ | _, u⟩ <;> rfl

/-- A deletion is refused, or asks the class of the object, and then goes to the object if nothing
ended it. -/
theorem deleteAt_apply (host : Host σ) (valid : t.heap.isValid o = true)
    (unrepeated : t.heap.Unrepeated) (name : Text) :
    ((t.heap.row o).refusesDelete name = true →
      View.deleteAt host o name t = (.ok false, t)) ∧
    ((t.heap.row o).refusesDelete name = false →
      ∃ ended u,
        Consulted ((t.heap.row o).deletions host name) (t.hold (t.heap.row o).ofClass.toList)
          ended u ∧
        View.deleteAt host o name t =
          match ended with
          | .error e => (.error e, u.release t.holding)
          | .ok true => (.ok true, u.release t.holding)
          | .ok false => ((deleteOwn o name u.heap).1,
              (u.withHeap (deleteOwn o name u.heap).2).release t.holding)) := by
  have ofClass := classOf_row valid
  have here := t.heap.object_row o
  have refuses := refusesDelete_iff valid unrepeated name
  generalize t.heap.row o = row at *
  obtain ⟨q, c?, properties⟩ := row
  dsimp only at ofClass here refuses ⊢
  subst here
  unfold View.deleteAt
  rw [bind_apply]
  simp only [Action.reading, ofClass]
  cases c? with
  | none =>
      refine ⟨fun refused => ?_, fun allowed => ?_⟩
      · obtain ⟨c, none, -⟩ | permanent := refuses.mp refused
        · cases none
        · exact deleteThrough_of_permanent permanent []
      · have open_ : t.heap.isPermanent q name = false :=
          Bool.eq_false_iff.mpr fun permanent =>
            Bool.eq_false_iff.mp allowed (refuses.mpr (Or.inr permanent))
        obtain ⟨ended, u, consulted, run⟩ := deleteThrough_apply host valid open_ []
        cases consulted
        exact ⟨.ok false, t, .exhausted t, run⟩
  | some c =>
      dsimp only
      cases entry : View.hasPermanentEntry c name with
      | true =>
          refine ⟨fun _ => rfl, fun allowed => ?_⟩
          rw [refuses.mpr (Or.inl ⟨c, rfl, entry⟩)] at allowed
          cases allowed
      | false =>
          rw [if_neg Bool.false_ne_true, holding_apply]
          refine ⟨fun refused => ?_, fun allowed => ?_⟩
          · obtain ⟨d, same, permanent⟩ | permanent := refuses.mp refused
            · cases same
              rw [entry] at permanent
              cases permanent
            · rw [deleteThrough_of_permanent (t := t.hold [c]) permanent]
              rfl
          · have open_ : (t.hold [c]).heap.isPermanent q name = false :=
              Bool.eq_false_iff.mpr fun permanent =>
                Bool.eq_false_iff.mp allowed (refuses.mpr (Or.inr permanent))
            obtain ⟨ended, u, consulted, run⟩ :=
              deleteThrough_apply host (t := t.hold [c]) valid open_ c.chain
            refine ⟨ended, u, consulted, ?_⟩
            rw [run]
            rcases ended with e | _ | _ <;> rfl

/-! ### Deleting from an object -/

theorem Heap.Reachable.rootAll {h : Heap} (reachable : Reachable h) (vs : List Value) :
    Reachable (h.rootAll vs) := by
  have within := above_rootAll idleHost vs ⟨h, [], ()⟩
  rw [rootAll_apply] at within
  exact reachable.within within

/-- **A deletion goes to the object last.**  It is refused if something that the object has under
the name is permanent, and then no one is asked and nothing has changed.  Otherwise it is offered
to the callbacks in order, and it ends with the first that takes it or fails.  If none does, it
takes the property of the object and nothing else, unless a callback has made that permanent. -/
theorem delete_goes_last (lawful : host.Lawful) (reachable : Reachable s.heap) (name : Text)
    (valid : s.heap.isValid o = true) :
    ((s.heap.row o).refusesDelete name = true →
      View.deleteProperty host o name s = (.ok false, s)) ∧
    ((s.heap.row o).refusesDelete name = false → ∃ ended t,
      Consulted ((s.heap.row o).deletions host name)
        ((s.on o).hold (s.heap.row o).ofClass.toList) ended t ∧
      match ended with
      | .error e => View.deleteProperty host o name s = (.error e, t.leave s)
      | .ok true => View.deleteProperty host o name s = (.ok true, t.leave s)
      | .ok false => ∃ r h, AfterDelete o name t.heap r h ∧
          View.deleteProperty host o name s = (r, (t.withHeap h).leave s)) := by
  have table := s.heap.sameTable_rootAll [.object o]
  have rooted : (s.on o).heap.isValid o = true := by
    show (s.heap.rootAll [.object o]).isValid o = true
    rwa [table.isValid]
  have apart : (s.on o).heap.Unrepeated := reachable.unrepeated.congr table.object
  have form : View.deleteProperty host o name = _ :=
    (Invocation.delete o name).perform_eq_withOperands rfl
  rw [form, withOperands_apply valid]
  simp only [Invocation.operands, Invocation.body, Invocation.returned]
  rw [← s.row_on o]
  obtain ⟨refused, asked⟩ := deleteAt_apply host rooted apart name
  refine ⟨fun refuses => ?_, fun allows => ?_⟩
  · rw [show s.withHeap (s.heap.rootAll [.object o]) = s.on o from rfl, refused refuses]
    exact congrArg (fun h => (_, s.withHeap h)) (s.heap.cutStack_rootAll _)
  · obtain ⟨ended, t, consulted, run⟩ := asked allows
    refine ⟨ended, t, consulted, ?_⟩
    rw [show s.withHeap (s.heap.rootAll [.object o]) = s.on o from rfl, run]
    rcases ended with e | _ | _
    · rfl
    · have within : Within (s.on o).heap t.heap := consulted.within fun act mem => by
        obtain ⟨d, -, rfl⟩ := List.mem_map.mp mem
        exact above_poll lawful _ _
      have there : t.heap.isValid o = true :=
        within.isValid (reachable.intact.congr table)
          (mem_stack_rootAll List.mem_cons_self valid) rooted
      have apart : t.heap.Unrepeated := ((reachable.rootAll _).within within).unrepeated
      refine ⟨_, _, afterDelete_deleteOwn there apart name, ?_⟩
      rcases deleteOwn o name t.heap with ⟨e | b, h⟩ <;> rfl
    · rfl

/-- A host that makes a property permanent when it is asked to delete it, and leaves it to the
object. -/
def hardeningHost : Host Unit :=
  { idleHost with
    answer := fun _ r =>
      match r with
      | .delete o name => do
        Action.allocating idleHost fun held =>
          Heap.defineOwn held o ⟨name, .null, ⟨false, false, true⟩⟩
        return false
      | r => fun s => (r.unanswered, s) }

theorem lawful_hardeningHost : hardeningHost.Lawful := by
  intro α f r
  cases r with
  | delete o name =>
      exact Action.above_of_keeps fun start =>
        (keeps_defineOwn (enduring_within idleHost start).toSturdy o _).bind fun _ =>
          Preserves.pure _
  | _ => exact fun _ => .refl

/-- A class with a `delete` callback. -/
def hardenedClass : Class :=
  ⟨{ id := ⟨0⟩, version := 0, name := Text.ofString "Hardened", automatic := false, values := []
     functions := []
     callbacks := fun op => if op = .delete then some ⟨0⟩ else none }, []⟩

/-- A session with an instance and a plain object.  Both have a property that is not permanent,
and the instance has one that is. -/
def hardenedSession : Session Unit :=
  ⟨after (new ⟨0⟩ .standard .synchronous)
    (turnsOf [.allocInstance hardenedClass none ⟨⟨0⟩, 0, 0⟩, .allocPlain,
      .defineOwn ⟨⟨0⟩, 2, 0⟩ ⟨Text.ofString "a", .null, .none⟩,
      .defineOwn ⟨⟨0⟩, 2, 0⟩ ⟨Text.ofString "p", .null, ⟨false, false, true⟩⟩,
      .defineOwn ⟨⟨0⟩, 3, 0⟩ ⟨Text.ofString "a", .null, .none⟩]), [], ()⟩

/-- There the callback keeps the property of the instance from being deleted, and the plain object
loses its own. -/
theorem delete_goes_last_hardened :
    (∃ ended t,
      Consulted ((hardenedSession.heap.row ⟨⟨0⟩, 2, 0⟩).deletions hardeningHost (Text.ofString "a"))
        ((hardenedSession.on ⟨⟨0⟩, 2, 0⟩).hold
          (hardenedSession.heap.row ⟨⟨0⟩, 2, 0⟩).ofClass.toList) ended t ∧
      match ended with
      | .error e => View.deleteProperty hardeningHost ⟨⟨0⟩, 2, 0⟩ (Text.ofString "a")
          hardenedSession = (.error e, t.leave hardenedSession)
      | .ok true => View.deleteProperty hardeningHost ⟨⟨0⟩, 2, 0⟩ (Text.ofString "a")
          hardenedSession = (.ok true, t.leave hardenedSession)
      | .ok false => ∃ r h, AfterDelete ⟨⟨0⟩, 2, 0⟩ (Text.ofString "a") t.heap r h ∧
          View.deleteProperty hardeningHost ⟨⟨0⟩, 2, 0⟩ (Text.ofString "a") hardenedSession =
            (r, (t.withHeap h).leave hardenedSession)) ∧
    View.deleteProperty hardeningHost ⟨⟨0⟩, 2, 0⟩ (Text.ofString "p") hardenedSession =
      (.ok false, hardenedSession) ∧
    (View.deleteProperty hardeningHost ⟨⟨0⟩, 2, 0⟩ (Text.ofString "a") hardenedSession).1 =
      .ok false ∧
    (View.deleteProperty hardeningHost ⟨⟨0⟩, 3, 0⟩ (Text.ofString "a") hardenedSession).1 =
      .ok true ∧
    (View.deleteProperty hardeningHost ⟨⟨0⟩, 3, 0⟩ (Text.ofString "a")
      hardenedSession).2.heap.ownProperty ⟨⟨0⟩, 3, 0⟩ (Text.ofString "a") = .ok none := by
  have reachable : Reachable hardenedSession.heap := (Reachable.new _ _ _).after _
  have deletes := fun name => delete_goes_last (o := ⟨⟨0⟩, 2, 0⟩) lawful_hardeningHost reachable
    name (by decide +kernel)
  exact ⟨(deletes _).2 (by decide +kernel), (deletes _).1 (by decide +kernel),
    by decide +kernel, by decide +kernel, by decide +kernel⟩

end HostObjects
