import HostObjects.Heap.Collect
import HostObjects.Heap.Roots

/-!
# Groups

A group is a heap that several contexts share, with the queue of its run loop. Only one view may
have the heap at a time: opening a view takes the heap out of the group, closing it puts the heap
back, and a group without its heap is locked.

Owned roots and owned edges can be dropped at any moment, also while the heap is out. A `Release`
dropped then waits in the group and is applied by whoever takes the heap next, before anything
else.
-/

namespace HostObjects

/-- The identity of a thread. -/
structure ThreadId where
  /-- The number of the thread in order of creation. -/
  number : Nat
deriving DecidableEq, Inhabited

/-- The options of a group. -/
structure GroupOptions where
  limits : Limits := .standard
  mode : CollectionMode := .synchronous
  /-- Whether the run loop belongs to the thread that makes the group. -/
  bound : Bool := true
deriving DecidableEq

/-- What the owner of a root or an edge leaves to be undone. -/
inductive Release where
  | root (r : RootPlace)
  /-- Remove one registration of an edge. -/
  | edge (owner target : Node)
deriving DecidableEq

namespace Release

/-- Undoes what was owned. -/
def apply (h : Heap) : Release → Heap
  | .root r => h.removeRoot r
  | .edge owner target => (h.removeEdge owner target).2

/-- Undoes everything in a list, first to last. -/
def applyAll (h : Heap) (rs : List Release) : Heap := rs.foldl apply h

end Release

/-- A heap shared by contexts, with tasks of type `τ` waiting for its run loop. -/
structure Group (τ : Type) where
  /-- The heap, absent while a view has it. -/
  heap : Option Heap
  /-- The releases that wait for the heap, oldest first. -/
  pending : List Release
  options : GroupOptions
  /-- The thread that the run loop belongs to. -/
  thread : Option ThreadId
  /-- The tasks that wait for the run loop, oldest first. -/
  tasks : List τ

namespace Group

variable {τ : Type}

/-- A group made on a thread. -/
def new (id : HeapId) (options : GroupOptions) (current : ThreadId) : Group τ where
  heap := some (Heap.new id options.limits options.mode)
  pending := []
  options := options
  thread := if options.bound then some current else none
  tasks := []

/-- Whether a view has the heap. -/
def isLocked (g : Group τ) : Bool := g.heap.isNone

/-- Takes the heap, with the releases applied that waited for it. -/
def lend? (g : Group τ) : Option (Heap × Group τ) :=
  g.heap.map fun h => (Release.applyAll h g.pending, { g with heap := none, pending := [] })

/-- Puts the heap back. -/
def giveBack (h : Heap) (g : Group τ) : Group τ := { g with heap := some h }

/-- Undoes what was owned: at once if the heap is there, otherwise when it is taken next. -/
def release (r : Release) (g : Group τ) : Group τ :=
  match g.heap with
  | some h => { g with heap := some (r.apply h) }
  | none => { g with pending := g.pending ++ [r] }

/-- Adds a task at the end of the queue. -/
def defer (t : τ) (g : Group τ) : Group τ := { g with tasks := g.tasks ++ [t] }

/-- Takes the oldest task off the queue. -/
def nextTask? (g : Group τ) : Option (τ × Group τ) :=
  match g.tasks with
  | [] => none
  | t :: ts => some (t, { g with tasks := ts })

/-- Whether the run loop may run on a thread. -/
def mayRunOn (g : Group τ) (current : ThreadId) : Bool :=
  match g.thread with
  | some t => t == current
  | none => true

@[simp] theorem isLocked_giveBack (h : Heap) (g : Group τ) : (g.giveBack h).isLocked = false := rfl

end Group

namespace Heap

/-- Every object still in the heap, in the order of the slots, as it waits for its finalizers. -/
def remains (h : Heap) : List Reaped := (List.range h.slots.size).filterMap h.reap?

end Heap

end HostObjects
