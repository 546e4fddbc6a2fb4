import HostObjects.Proofs.Script.Owners
import HostObjects.Proofs.View.Lookup

/-!
# Handles that are not valid

Whatever is done with an object is done through a handle, and many operations have to look
whether the handle is one.  `OnObject` lists them.  Each comes to its target in one of three
ways: in the form of the operations that run callbacks (`Invocation.perform_of_invalid`), by a
reading of the heap, or by a command.  All that is looked at before the target are values that
are to be stored, and a prototype that is to be set (`OnObject.checkedBefore`).

So where the target is not valid, the operation is rejected and the session is as it was
(`invalid_target_rejected`).  The session has all there is: no callback has run, the heap is
unchanged, and so is the state of the host, where the other heaps are.  Private data that was
handed over is the exception.  It belongs to the operation, which drops it when it fails, and
the drop of an owner reaches the group of what is owned (`groups_discard`).
-/

namespace HostObjects

open Heap

variable {σ α β : Type} {host : Host σ} {s : Session σ} {h : Heap} {o : Handle}
  {held : ClassId → Bool} {p : Property} {e : Fault}

/-! ### Operations on an object -/

/-- An operation on the object of a handle. -/
inductive OnObject : Type → Type 1 where
  /-- An operation that may run callbacks. -/
  | invoke {α : Type} (q : Invocation α) : OnObject α
  | prototype (o : Handle) : OnObject (Option Handle)
  | setPrototype (o : Handle) (p : Option Handle) : OnObject Unit
  /-- Set the prototype of an object without a view. -/
  | relink (o : Handle) (p : Option Handle) : OnObject Unit
  | classOf (o : Handle) : OnObject (Option Class)
  | className (o : Handle) : OnObject Text
  /-- What an object is: its class, and whether it can be called and constructs. -/
  | report (o : Handle) : OnObject Script.Report
  | privateOf (o : Handle) : OnObject (Option PrivateData)
  /-- Change private data that was looked at. -/
  | setPrivate (o : Handle) (data : Option PrivateData) : OnObject Unit
  /-- Replace private data by other data, which is handed over. -/
  | replacePrivate (o : Handle) (data : Option PrivateData) : OnObject Bool
  | takePrivate (o : Handle) : OnObject (Option PrivateData)
  | hasOwn (o : Handle) (name : Text) : OnObject Bool
  | getOwn (o : Handle) (name : Text) : OnObject (Option Value)
  | ownAttributes (o : Handle) (name : Text) : OnObject (Option Attributes)
  | ownNames (o : Handle) : OnObject (List Text)
  | defineOwn (o : Handle) (p : Property) : OnObject Unit
  | putOwn (o : Handle) (p : Property) : OnObject Bool
  | deleteOwn (o : Handle) (name : Text) : OnObject Bool
  | pin (o : Handle) : OnObject Unit

namespace OnObject

/-- Runs the operation. -/
def perform (host : Host σ) : {α : Type} → OnObject α → Action σ α
  | _, invoke q => q.perform host
  | _, prototype o => Action.reading fun h => h.prototype o
  | _, setPrototype o p => View.setPrototype o p
  | _, relink o p => Action.editing (Heap.setPrototype o p)
  | _, classOf o => Action.reading fun h => h.classOf o
  | _, className o => Action.reading fun h => View.className h o
  | _, report o => Action.reading fun h => Script.objectReport h o
  | _, privateOf o => Action.reading fun h => h.privateOf o
  | _, setPrivate o data => Action.editing (Heap.setPrivate o data)
  | _, replacePrivate o data => View.replacePrivate host o data
  | _, takePrivate o => do
    let data ← Action.reading fun h => h.privateOf o
    Action.editing (Heap.setPrivate o none)
    return data
  | _, hasOwn o name => Action.reading fun h => h.hasOwn o name
  | _, getOwn o name => Action.reading fun h => h.getOwn o name
  | _, ownAttributes o name => Action.reading fun h => h.ownAttributes o name
  | _, ownNames o => Action.reading fun h => h.ownNames o
  | _, defineOwn o p => Action.allocating host fun held => Heap.defineOwn held o p
  | _, putOwn o p => Action.allocating host fun held => Heap.putOwn held o p
  | _, deleteOwn o name => Action.editing (Heap.deleteOwn o name)
  | _, pin o => Action.editing (Heap.pin (.object o))

/-- The handle of the object; operations on a property named by a value have none here, for
they convert the value first. -/
def target? : {α : Type} → OnObject α → Option Handle
  | _, invoke (.toNumber v) | _, invoke (.toText v) => v.object?
  | _, invoke q => q.target?
  | _, prototype o | _, setPrototype o _ | _, relink o _ | _, classOf o | _, className o
  | _, report o | _, privateOf o | _, setPrivate o _ | _, replacePrivate o _ | _, takePrivate o
  | _, hasOwn o _ | _, getOwn o _ | _, ownAttributes o _ | _, ownNames o | _, defineOwn o _
  | _, putOwn o _ | _, deleteOwn o _ | _, pin o => some o

/-- The operands that are checked before the target. -/
def checkedBefore : {α : Type} → OnObject α → List Value
  | _, setPrototype _ p => (p.map Value.object).toList
  | _, defineOwn _ p | _, putOwn _ p => [p.value]
  | _, _ => []

/-- The private data that the caller hands over. -/
def handedOver : {α : Type} → OnObject α → Option PrivateData
  | _, replacePrivate _ data => data
  | _, _ => none

end OnObject

/-! ### Between operations -/

/-- **Between operations no dead object waits for its finalizers.**  Everything that views do
leaves it so, callbacks included. -/
theorem enduring_settled (host : Host σ) :
    Enduring host 0 fun s : Session σ => s.heap.reaped = [] where
  high _ _ := Nat.zero_le _
  allocating s c _ _ := by
    rw [settle_eq]
  editing s c still notSettle _ settled := (c.reaped_run _ s.heap still notSettle).trans settled
  discard _ _ settled := settled
  holding _ _ settled := settled
  push _ _ settled := settled
  cut _ _ _ settled := settled

/-! ### Commands on a handle that is not valid -/

namespace Heap

/-- A reading that fails ends the operation. -/
theorem reading_bind_of_error {f : Heap → Except Fault α} {next : α → HeapM β}
    (failed : f h = .error e) : (Heap.reading f >>= next) h = (.error e, h) := by
  rw [bind_apply]
  simp only [Heap.reading, failed]

section Invalid

variable (gone : h.isValid o = false)
include gone

theorem ownProperty_of_invalid (name : Text) :
    h.ownProperty o name = .error (h.rejection o) := map_object_of_invalid gone _

theorem map_ownProperty_of_invalid (name : Text) (f : Option Property → α) :
    (h.ownProperty o name).map f = .error (h.rejection o) := by
  rw [ownProperty_of_invalid gone]
  rfl

theorem change_of_invalid (f : HostObject → HostObject) :
    Heap.change o f h = (.error (h.rejection o), h) := by
  unfold Heap.change
  rw [object_eq_rejection gone]

theorem setPrivate_of_invalid (data : Option PrivateData) :
    Heap.setPrivate o data h = (.error (h.rejection o), h) := change_of_invalid gone _

theorem defineOwn_of_invalid (storable : h.checkStorable p.value = .ok ()) :
    Heap.defineOwn held o p h = (.error (h.rejection o), h) := by
  unfold Heap.defineOwn
  rw [reading_bind_of_ok storable, reading_bind_of_error (ownProperty_of_invalid gone _)]

theorem putOwn_of_invalid (storable : h.checkStorable p.value = .ok ()) :
    Heap.putOwn held o p h = (.error (h.rejection o), h) := by
  unfold Heap.putOwn
  rw [reading_bind_of_ok storable, reading_bind_of_error (ownProperty_of_invalid gone _)]

theorem deleteOwn_of_invalid (name : Text) :
    Heap.deleteOwn o name h = (.error (h.rejection o), h) :=
  reading_bind_of_error (ownProperty_of_invalid gone name)

theorem setPrototype_of_invalid (p : Option Handle) :
    Heap.setPrototype o p h = (.error (h.rejection o), h) :=
  reading_bind_of_error (check_of_invalid gone)

theorem pin_of_invalid : Heap.pin (.object o) h = (.error (h.rejection o), h) := by
  unfold Heap.pin
  simp only [check_of_invalid gone]

end Invalid

end Heap

/-! ### Actions that fail at once -/

/-- A reading that fails ends the action. -/
theorem Action.reading_bind_of_error {f : Heap → Except Fault α} {next : α → Action σ β}
    (failed : f s.heap = .error e) : (Action.reading f >>= next) s = (.error e, s) := by
  rw [bind_apply]
  simp only [Action.reading, failed]

theorem Action.reading_of_error {f : Heap → Except Fault α} (failed : f s.heap = .error e) :
    Action.reading f s = (.error e, s) := Prod.ext failed rfl

theorem Action.editing_of_error {act : HeapM α} (failed : act s.heap = (.error e, s.heap)) :
    Action.editing act s = (.error e, s) := by
  obtain ⟨h, cs, st⟩ := s
  simp only [Action.editing, failed]

/-- A command that fails at once runs no finalizers, if none are due. -/
theorem allocating_of_error {act : (ClassId → Bool) → HeapM α} (settled : s.heap.reaped = [])
    (failed : ∀ held, act held s.heap = (.error e, s.heap)) :
    Action.allocating host act s = (.error e, s) := by
  rw [allocating_apply, failed, settle_eq, settled]
  show (_, (⟨{ s.heap with reaped := [] }, s.holding, s.host⟩ : Session σ)) = _
  rw [← settled]

theorem inScope_of_error {act : Action σ α} (failed : act s = (.error e, s)) :
    Action.inScope act s = (.error e, s) := by
  have restored : s.heap.cutStack s.heap.stack.size = s.heap := s.heap.cutStack_rootAll []
  unfold Action.inScope
  rw [failed]
  simp only [restored]

section Invalid

variable (gone : s.heap.isValid o = false)
include gone

/-- The conversions that are made of others. -/
theorem toNumber_of_invalid :
    View.toNumber host (.object o) s = (.error (s.heap.rejection o), s) := by
  have converted : View.convert host o .number s = _ :=
    (Invocation.convert o .number).perform_of_invalid rfl gone
  show (Action.inScope (View.convert host o .number) >>= _) s = _
  rw [bind_apply, inScope_of_error converted]

theorem toText_of_invalid :
    View.toText host (.object o) s = (.error (s.heap.rejection o), s) := by
  have converted : View.convert host o .string s = _ :=
    (Invocation.convert o .string).perform_of_invalid rfl gone
  show (Action.inScope (View.convert host o .string) >>= _) s = _
  rw [bind_apply, inScope_of_error converted]

/-- What cannot be kept is dropped. -/
theorem replacePrivate_of_invalid (data : Option PrivateData) :
    View.replacePrivate host o data s =
      (.error (s.heap.rejection o),
        { s with host := discardAll host.toReclaimer data s.host }) := by
  unfold View.replacePrivate View.orDiscard
  rw [tryCatch_apply, Action.reading_bind_of_error (map_object_of_invalid gone _)]
  rfl

end Invalid

/-! ### Rejection -/

theorem objectReport_of_invalid (gone : h.isValid o = false) :
    Script.objectReport h o = .error (h.rejection o) := by
  show (h.object o >>= _) = _
  rw [object_eq_rejection gone]
  rfl

theorem View.setPrototype_of_invalid {p : Option Handle} (gone : s.heap.isValid o = false)
    (storable : ∀ v ∈ (p.map Value.object).toList, s.heap.checkStorable v = .ok ()) :
    View.setPrototype o p s = (.error (s.heap.rejection o), s) := by
  have failed := Action.editing_of_error (Heap.setPrototype_of_invalid gone p)
  cases p with
  | none => exact failed
  | some p =>
      have checked : s.heap.check p = .ok () := storable _ List.mem_cons_self
      show (Action.reading (fun h => h.check p) >>= _) s = _
      rw [bind_apply]
      simp only [Action.reading, checked]
      exact failed

/-- An operation that may run callbacks rejects its target, and so do the conversions. -/
theorem invoke_of_invalid {q : Invocation α} (target : (OnObject.invoke q).target? = some o)
    (gone : s.heap.isValid o = false) :
    q.perform host s = (.error (s.heap.rejection o), s) := by
  cases q with
  | toNumber v =>
      cases v <;> cases target
      exact toNumber_of_invalid gone
  | toText v =>
      cases v <;> cases target
      exact toText_of_invalid gone
  | hasKeyed | getKeyed | setKeyed | deleteKeyed => cases target
  | _ =>
      cases target
      exact Invocation.perform_of_invalid _ rfl gone

/-- **An operation on a handle that is not valid is rejected and changes nothing**, except that
it drops the private data it was handed.  No dead object waits between operations, as
`enduring_settled` says. -/
theorem invalid_target_rejected (q : OnObject α) (target : q.target? = some o)
    (settled : s.heap.reaped = []) (gone : s.heap.isValid o = false)
    (storable : ∀ v ∈ q.checkedBefore, s.heap.checkStorable v = .ok ()) :
    q.perform host s =
      (.error (s.heap.rejection o),
        { s with host := discardAll host.toReclaimer q.handedOver s.host }) := by
  cases q with
  | invoke q =>
      rw [OnObject.perform, invoke_of_invalid target gone]
      rfl
  | prototype | classOf | className | privateOf | ownNames =>
      cases target
      rw [OnObject.perform, Action.reading_of_error (map_object_of_invalid gone _)]
      rfl
  | report =>
      cases target
      rw [OnObject.perform, Action.reading_of_error (objectReport_of_invalid gone)]
      rfl
  | hasOwn | getOwn | ownAttributes =>
      cases target
      rw [OnObject.perform, Action.reading_of_error (map_ownProperty_of_invalid gone _ _)]
      rfl
  | takePrivate =>
      cases target
      rw [OnObject.perform, Action.reading_bind_of_error (map_object_of_invalid gone _)]
      rfl
  | setPrototype =>
      cases target
      rw [OnObject.perform, View.setPrototype_of_invalid gone storable]
      rfl
  | relink =>
      cases target
      rw [OnObject.perform, Action.editing_of_error (setPrototype_of_invalid gone _)]
      rfl
  | setPrivate =>
      cases target
      rw [OnObject.perform, Action.editing_of_error (setPrivate_of_invalid gone _)]
      rfl
  | replacePrivate _ data =>
      cases target
      exact replacePrivate_of_invalid gone data
  | defineOwn =>
      cases target
      have checked := storable _ List.mem_cons_self
      rw [OnObject.perform, allocating_of_error settled fun _ => defineOwn_of_invalid gone checked]
      rfl
  | putOwn =>
      cases target
      have checked := storable _ List.mem_cons_self
      rw [OnObject.perform, allocating_of_error settled fun _ => putOwn_of_invalid gone checked]
      rfl
  | deleteOwn =>
      cases target
      rw [OnObject.perform, Action.editing_of_error (deleteOwn_of_invalid gone _)]
      rfl
  | pin =>
      cases target
      rw [OnObject.perform, Action.editing_of_error (pin_of_invalid gone)]
      rfl

/-- A host that counts what is asked of it. -/
def countingHost : Host Nat where
  finalize _ _ _ data n := (data, n + 1)
  discard _ n := n + 1
  answer _ r s := (r.unanswered, { s with host := s.host + 1 })
  holds _ _ := true

/-- A session with a new heap. -/
def newSession : Session Nat := ⟨new ⟨0⟩ .standard .synchronous, [], 0⟩

/-- In a new heap the handle of the first object of another heap is foreign, though the new heap
has an object in the same slot, and a handle of a later generation of that slot is stale. -/
theorem invalid_target_rejected_new :
    (OnObject.invoke (.call ⟨⟨1⟩, 0, 0⟩ .undefined [.object ⟨⟨0⟩, 0, 0⟩])).perform
        countingHost newSession = (.error .foreignHandle, newSession) ∧
      (OnObject.putOwn ⟨⟨0⟩, 0, 1⟩ ⟨Text.ofString "x", .object ⟨⟨0⟩, 0, 0⟩, .none⟩).perform
        countingHost newSession = (.error .staleHandle, newSession) ∧
      (OnObject.replacePrivate ⟨⟨1⟩, 0, 0⟩ (some (.word 7))).perform
        countingHost newSession = (.error .foreignHandle, { newSession with host := 1 }) := by
  have foreign : newSession.heap.isValid ⟨⟨1⟩, 0, 0⟩ = false := by decide
  have stale : newSession.heap.isValid ⟨⟨0⟩, 0, 1⟩ = false := by decide
  refine ⟨invalid_target_rejected _ rfl rfl foreign nofun,
    invalid_target_rejected _ rfl rfl stale fun v mem => ?_,
    invalid_target_rejected _ rfl rfl foreign nofun⟩
  rw [List.mem_singleton.mp mem]
  rfl

/-! ### What a drop reaches -/

namespace Script

/-- The heap of the root or the edge that private data owns. -/
def ownedIn? : PrivateData → Option HeapId
  | .managed m => some m.heap
  | .root r => some r.heap
  | .word _ | .string _ => none

/-- **A drop reaches only the group of what is owned.** -/
theorem groups_discard {data : PrivateData} {u : HeapId} (other : ownedIn? data ≠ some u)
    (w : World) : (w.discard data).groups[u]? = w.groups[u]? := by
  cases data with
  | word | string => rfl
  | root r =>
      show (w.dropOwned r).groups[u]? = _
      rw [dropOwned_eq_dropOwner]
      exact groups_dropOwner_of_ne (fun same => other (congrArg some same)) _ w
  | managed m =>
      show (w.dropManaged m).groups[u]? = _
      rw [dropManaged_eq_dropOwner]
      exact groups_dropOwner_of_ne (fun same => other (congrArg some same)) _ w

/-- A heap with a persistent root. -/
def rootedHeap : Heap := (addRoot (.object ⟨⟨1⟩, 0, 0⟩) (new ⟨1⟩ .standard .synchronous)).2

/-- A session of another heap, in a world where the rooted heap waits in its group. -/
def visitingSession : Session World :=
  ⟨new ⟨0⟩ .standard .synchronous, [],
    { groups := (∅ : Std.HashMap HeapId (Group Task)).insert ⟨1⟩
        ⟨some rootedHeap, [], {}, none, []⟩ }⟩

/-- The value of the first persistent root in the heap of the group. -/
def firstRoot? (w : World) : Option Value :=
  (w.groups[(⟨1⟩ : HeapId)]?.bind Group.heap).bind fun h => h.root? ⟨0⟩

/-- A host of scripts whose functions do not answer. -/
def unansweringHost : Host World := Deeper.host ⟨fun _ r s => (r.unanswered, s), fun _ w => w⟩

/-- **Private data handed over with a foreign handle takes its root along.**  The operation is
rejected, and in the heap of the handle the root is gone. -/
theorem foreign_handle_releases_root :
    visitingSession.heap.isValid ⟨⟨1⟩, 0, 0⟩ = false ∧
      (View.replacePrivate unansweringHost ⟨⟨1⟩, 0, 0⟩ (some (.root ⟨⟨0⟩, ⟨1⟩⟩))
        visitingSession).1 = .error .foreignHandle ∧
      firstRoot? visitingSession.host = some (.object ⟨⟨1⟩, 0, 0⟩) ∧
      firstRoot? (View.replacePrivate unansweringHost ⟨⟨1⟩, 0, 0⟩ (some (.root ⟨⟨0⟩, ⟨1⟩⟩))
        visitingSession).2.host = none := by
  have gone : visitingSession.heap.isValid ⟨⟨1⟩, 0, 0⟩ = false := by decide
  have there : visitingSession.host.groups[(⟨1⟩ : HeapId)]? =
      some ⟨some rootedHeap, [], {}, none, []⟩ := Std.HashMap.getElem?_insert_self
  rw [replacePrivate_of_invalid gone]
  refine ⟨gone, rfl, ?_, ?_⟩
  · rw [firstRoot?, there]
    rfl
  · -- The group is not locked, so it releases the root at once.
    show firstRoot? (visitingSession.host.dropOwner ⟨1⟩ (.root ⟨⟨0⟩, ⟨1⟩⟩)) = none
    rw [firstRoot?, groups_dropOwner, there]
    rfl

end Script

end HostObjects
