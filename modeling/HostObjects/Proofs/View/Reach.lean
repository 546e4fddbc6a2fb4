import HostObjects.Group.Basic
import HostObjects.Proofs.Heap.Frame
import HostObjects.View.Convert
import HostObjects.View.Enumerate

/-!
# Views do to a heap what commands do

Whatever an operation of a view does to its session it does in a few ways: it runs a
command on the heap, after which dead objects are let go if the command may collect,
or it drops private data.  A property of sessions that lasts through all of that is
`Sturdy` as far as the stack of roots is left alone, and `Enduring` if it also lasts
through changes of the stack above some height.  Then every operation keeps it, in all
the states on the way and whether it fails or not.  The host's functions are part of
that: what they answer with are actions again, and `Host.Keeps` asks of them what is
proved here of the operations.

A property of sessions that does not last through every command on own properties may
still be `Tender`, which asks nothing of these commands, and `Lingering`, which asks that a
look-up may make a function a property of its instance.  That is enough for all operations
but those that write and delete, and for them as well if the write or the deletion at the
object keeps it.

A property of the heap alone that commands keep is enduring
(`UnbrokenAbove.enduring`).  So what is proved of reachable heaps holds of the heap of
a view before and after each operation and whenever a callback runs; and so does what
is proved of a frame (`Within`) of whatever runs above it.
-/

namespace HostObjects

open Heap

variable {σ α β : Type} {I : Heap → Prop}

/-- A property of sessions that lasts through whatever leaves the stack alone. -/
structure Sturdy (host : Host σ) (J : Session σ → Prop) : Prop where
  /-- A command that may collect, and letting go of what it removed. -/
  allocating : ∀ s (c : Command), c.allocates = true → J s →
    J (Action.settle host { s with heap := c.run (Action.heldOutside host s) s.heap })
  /-- Any other command, if it leaves the stack alone. -/
  editing : ∀ s (c : Command), c.allocates = false → c ≠ .settle → c.movesStack = false →
    J s → J { s with heap := c.run (fun _ => false) s.heap }
  /-- Dropping private data. -/
  discard : ∀ s data, J s → J { s with host := host.discard data s.host }
  /-- The classes that operations hold on to do not matter. -/
  holding : ∀ s cs, J s → J { s with holding := cs }

/-- A property of sessions that lasts through whatever a view does above a height of
the stack. -/
structure Enduring (host : Host σ) (base : Nat) (J : Session σ → Prop) : Prop
    extends Sturdy host J where
  /-- The stack has the height. -/
  high : ∀ s, J s → base ≤ s.heap.stack.size
  /-- Rooting a value. -/
  push : ∀ s v, J s → J { s with heap := s.heap.pushRoot v }
  /-- Cutting the stack back. -/
  cut : ∀ s height, base ≤ height → J s → J { s with heap := s.heap.cutStack height }

/-- A property of sessions that lasts through whatever leaves the stack and the own
properties alone. -/
structure Tender (host : Host σ) (J : Session σ → Prop) : Prop where
  /-- A command that may collect, and letting go of what it removed. -/
  allocating : ∀ s (c : Command), c.allocates = true → c.onProperty = false → J s →
    J (Action.settle host { s with heap := c.run (Action.heldOutside host s) s.heap })
  /-- Any other command, if it leaves the stack alone. -/
  editing : ∀ s (c : Command), c.allocates = false → c ≠ .settle → c.movesStack = false →
    c.onProperty = false → J s → J { s with heap := c.run (fun _ => false) s.heap }
  /-- Dropping private data. -/
  discard : ∀ s data, J s → J { s with host := host.discard data s.host }
  /-- The classes that operations hold on to do not matter. -/
  holding : ∀ s cs, J s → J { s with holding := cs }

/-- A property of sessions that lasts through whatever a view does above a height of the
stack, writes, definitions and deletions of own properties apart. -/
structure Lingering (host : Host σ) (base : Nat) (J : Session σ → Prop) : Prop
    extends Tender host J where
  /-- The stack has the height. -/
  high : ∀ s, J s → base ≤ s.heap.stack.size
  /-- Rooting a value. -/
  push : ∀ s v, J s → J { s with heap := s.heap.pushRoot v }
  /-- Cutting the stack back. -/
  cut : ∀ s height, base ≤ height → J s → J { s with heap := s.heap.cutStack height }
  /-- Looking up a function on an instance, which makes it a property there. -/
  instanceFunction : ∀ o entry name, Preserves J (View.instanceFunction host o entry name)

/-- The functions of the host keep a property of the session. -/
def Host.Keeps (J : Session σ → Prop) (host : Host σ) : Prop :=
  ∀ {α : Type} (f : HostFunction) (r : Request α), Preserves J (host.answer f r)

/-- What the heap alone has, and commands keep, is enduring. -/
theorem Heap.UnbrokenAbove.enduring {base : Nat} (unbroken : UnbrokenAbove base I)
    (host : Host σ) : Enduring host base fun s => I s.heap where
  high s hs := unbroken.high s.heap hs
  allocating s c allocates hs := by
    have after := unbroken.run (Action.heldOutside host s) s.heap c
      (c.staysAbove_of_still (c.still_of_allocates allocates) base) hs
    unfold Action.settle
    dsimp only
    split
    · exact after
    · -- The dead objects were handed over.
      exact unbroken.run (fun _ => false) _ .settle trivial after
  editing s c _ _ still hs := unbroken.run _ s.heap c (c.staysAbove_of_still still base) hs
  discard _ _ hs := hs
  holding _ _ hs := hs
  push s v hs := unbroken.run (fun _ => false) s.heap (.pushRoot v) trivial hs
  cut s height le hs := unbroken.run (fun _ => false) s.heap (.cutStack height) le hs

/-! ### Groups -/

/-- Undoing what was owned is a command. -/
theorem Heap.UnbrokenAbove.applyAll {base : Nat} (unbroken : UnbrokenAbove base I)
    (rs : List Release) {h : Heap} (hs : I h) : I (Release.applyAll h rs) := by
  induction rs generalizing h with
  | nil => exact hs
  | cons r rs ih =>
      cases r with
      | root r => exact ih (unbroken.run (fun _ => false) h (.removeRoot r) trivial hs)
      | edge owner target =>
          exact ih (unbroken.run (fun _ => false) h (.removeEdge owner target) trivial hs)

/-! ### The actions of a view -/

section Actions

variable {host : Host σ} {base : Nat} {J : Session σ → Prop}

theorem keeps_reading (f : Heap → Except Fault α) :
    Preserves J (Action.reading f : Action σ α) :=
  Preserves.of_state fun _ hs => hs

theorem keeps_editing {act : HeapM α}
    (command : ∀ s, J s → J { s with heap := (act s.heap).2 }) :
    Preserves J (Action.editing act : Action σ α) :=
  Preserves.of_state command

theorem keeps_allocating {act : (ClassId → Bool) → HeapM α}
    (command : ∀ s, J s → J (Action.settle host
      { s with heap := (act (Action.heldOutside host s) s.heap).2 })) :
    Preserves J (Action.allocating host act) :=
  Preserves.of_state command

/-- Making a function allocates it and roots it. -/
theorem preserves_makeFunction {name : Text} {call : HostFunction}
    (alloc : Preserves J
      (Action.allocating host fun held => Heap.allocFunction held name call))
    (push : ∀ s v, J s → J { s with heap := s.heap.pushRoot v }) :
    Preserves J (View.makeFunction host name call) :=
  alloc.bind fun _ => Preserves.bind (Preserves.of_state fun s hs => push s _ hs) fun _ =>
    Preserves.pure _

section Still

variable (tender : Tender host J)
include tender

theorem keeps_discarding (data : Option PrivateData) :
    Preserves J (Action.discarding host data) := by
  refine Preserves.of_state fun s hs => ?_
  cases data with
  | some data => exact tender.discard s data hs
  | none => exact hs

theorem keeps_holding (cs : List Class) {act : Action σ α} (keep : Preserves J act) :
    Preserves J (Action.holding cs act) :=
  Preserves.of_state fun s hs =>
    tender.holding _ s.holding (keep.state (tender.holding s (cs ++ s.holding) hs))

/-! ### Commands that make room -/

theorem keeps_collect : Preserves J (Action.collect host) :=
  keeps_allocating fun s hs => tender.allocating s .collect rfl rfl hs

theorem keeps_allocPlain : Preserves J (Action.allocating host Heap.allocPlain) :=
  keeps_allocating fun s hs => tender.allocating s .allocPlain rfl rfl hs

theorem keeps_allocFunction (name : Text) (call : HostFunction) :
    Preserves J (Action.allocating host fun held => Heap.allocFunction held name call) :=
  keeps_allocating fun s hs => tender.allocating s (.allocFunction name call) rfl rfl hs

theorem keeps_prototypeOf (c : Class) :
    Preserves J (Action.allocating host fun held => Heap.prototypeOf held c.chain) :=
  keeps_allocating fun s hs => tender.allocating s (.prototypeOf c) rfl rfl hs

theorem keeps_allocInstance (c : Class) (data : Option PrivateData) (proto : Handle) :
    Preserves J
      (Action.allocating host fun held => Heap.allocInstance held c data proto) :=
  keeps_allocating fun s hs => tender.allocating s (.allocInstance c data proto) rfl rfl hs

/-! ### Commands that change an object -/

theorem keeps_setPrivate (o : Handle) (data : Option PrivateData) :
    Preserves J (Action.editing (Heap.setPrivate o data) : Action σ Unit) :=
  keeps_editing fun s hs => tender.editing s (.setPrivate o data) rfl (by simp) rfl rfl hs

theorem keeps_setOwnPrototype (o : Handle) (p : Option Handle) :
    Preserves J (Action.editing (Heap.setPrototype o p) : Action σ Unit) :=
  keeps_editing fun s hs => tender.editing s (.setPrototype o p) rfl (by simp) rfl rfl hs

/-! ### Making objects -/

theorem keeps_orDiscard (data : Option PrivateData) {act : Action σ α}
    (keep : Preserves J act) : Preserves J (View.orDiscard host data act) :=
  Preserves.tryCatch keep fun _ =>
    (keeps_discarding tender data).bind fun _ => Preserves.throw _

theorem keeps_replacePrivate (o : Handle) (data : Option PrivateData) :
    Preserves J (View.replacePrivate host o data) := by
  refine keeps_orDiscard tender data ((keeps_reading _).bind fun c => ?_)
  refine Preserves.ite (fun _ => ?_) fun _ => ?_
  · refine (keeps_reading _).bind fun old => (keeps_setPrivate tender o data).bind fun _ => ?_
    exact (keeps_discarding tender old).bind fun _ => Preserves.pure _
  · exact (keeps_discarding tender data).bind fun _ => Preserves.pure _

theorem keeps_makeInstance (c : Class) (data : Option PrivateData) :
    Preserves J (View.makeInstance host c data) :=
  keeps_orDiscard tender data <| (keeps_prototypeOf tender c).bind fun proto =>
    keeps_allocInstance tender c data proto

theorem keeps_classPrototype (c : Class) : Preserves J (View.classPrototype host c) := by
  refine Preserves.ite (fun _ => ?_) fun _ => Preserves.pure _
  exact (keeps_prototypeOf tender c).bind fun _ => Preserves.pure _

theorem keeps_constructedPrototype (c : Option Class) :
    Preserves J (View.constructedPrototype host c) := by
  unfold View.constructedPrototype
  cases c with
  | some c => exact keeps_prototypeOf tender c
  | none => exact keeps_reading _

theorem keeps_setPrototype (o : Handle) (p : Option Handle) :
    Preserves J (View.setPrototype o p : Action σ Unit) := by
  cases p with
  | some p => exact (keeps_reading _).bind fun _ => keeps_setOwnPrototype tender o _
  | none => exact keeps_setOwnPrototype tender o _

end Still

/-! ### Rooting -/

section Lingering

variable (lingering : Lingering host base J)
include lingering

theorem keeps_push (v : Value) : Preserves J (Action.push v : Action σ Unit) :=
  Preserves.of_state fun s hs => lingering.push s v hs

theorem keeps_rootOperand (v : Value) :
    Preserves J (Action.rootOperand v : Action σ Unit) := by
  refine Preserves.of_state fun s hs => ?_
  unfold Action.rootOperand
  split
  · exact (keeps_push lingering v).state hs
  · exact hs

theorem keeps_managedValue (m : ManagedValue) :
    Preserves J (Action.managedValue m : Action σ (Option Value)) := by
  unfold Action.managedValue
  split
  · refine (keeps_reading _).bind fun found => ?_
    cases found with
    | some o => exact (keeps_push lingering _).bind fun _ => Preserves.pure _
    | none => exact Preserves.pure _
  · exact Preserves.pure _

theorem keeps_inScope {act : Action σ α} (keep : Preserves J act) :
    Preserves J (Action.inScope act) :=
  Preserves.of_state fun s hs =>
    lingering.cut _ s.heap.stack.size (lingering.high s hs) (keep.state hs)

theorem keeps_operating (o : Handle) {act : Action σ α} (keep : Preserves J act) :
    Preserves J (Action.operating o act) :=
  (keeps_reading _).bind fun _ =>
    keeps_inScope lingering ((keeps_rootOperand lingering _).bind fun _ => keep)

theorem keeps_makePlain : Preserves J (View.makePlain host) :=
  (keeps_allocPlain lingering.toTender).bind fun _ =>
    (keeps_push lingering _).bind fun _ => Preserves.pure _

theorem keeps_makeFunction (name : Text) (call : HostFunction) :
    Preserves J (View.makeFunction host name call) :=
  preserves_makeFunction (keeps_allocFunction lingering.toTender name call) lingering.push

end Lingering

/-! ### Own properties -/

theorem Sturdy.tender (sturdy : Sturdy host J) : Tender host J where
  allocating s c allocates _ := sturdy.allocating s c allocates
  editing s c beside notSettle still _ := sturdy.editing s c beside notSettle still
  discard := sturdy.discard
  holding := sturdy.holding

theorem keeps_defineOwn (sturdy : Sturdy host J) (o : Handle) (p : Property) :
    Preserves J (Action.allocating host fun held => Heap.defineOwn held o p) :=
  keeps_allocating fun s hs => sturdy.allocating s (.defineOwn o p) rfl hs

theorem keeps_putOwn (sturdy : Sturdy host J) (o : Handle) (p : Property) :
    Preserves J (Action.allocating host fun held => Heap.putOwn held o p) :=
  keeps_allocating fun s hs => sturdy.allocating s (.putOwn o p) rfl hs

theorem keeps_deleteOwn (sturdy : Sturdy host J) (o : Handle) (name : Text) :
    Preserves J (Action.editing (Heap.deleteOwn o name) : Action σ Bool) :=
  keeps_editing fun s hs => sturdy.editing s (.deleteOwn o name) rfl (by simp) rfl hs

theorem Enduring.lingering (enduring : Enduring host base J) : Lingering host base J where
  toTender := enduring.toSturdy.tender
  high := enduring.high
  push := enduring.push
  cut := enduring.cut
  instanceFunction o entry name := by
    refine (keeps_reading _).bind fun found => ?_
    cases found with
    | some v => exact Preserves.pure _
    | none =>
        refine (preserves_makeFunction (keeps_allocFunction enduring.toSturdy.tender _ _)
          enduring.push).bind fun f => ?_
        exact (keeps_defineOwn enduring.toSturdy o _).bind fun _ => Preserves.pure _

theorem keeps_makeConstructor (enduring : Enduring host base J) (c : Option Class)
    (construct : Option HostFunction) : Preserves J (View.makeConstructor host c construct) := by
  have sturdy := enduring.toSturdy
  unfold View.makeConstructor
  refine (keeps_constructedPrototype sturdy.tender c).bind fun _ => Preserves.bind ?_ fun f => ?_
  · refine keeps_allocating fun s hs => ?_
    rw [get_bind_apply]
    exact sturdy.allocating s (.allocConstructor c construct) rfl hs
  · refine (keeps_push enduring.lingering _).bind fun _ => ?_
    exact (keeps_defineOwn sturdy f _).bind fun _ => Preserves.pure _

end Actions

end HostObjects
