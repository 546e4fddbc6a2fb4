import HostObjects.Class
import HostObjects.Heap.Object

/-!
# Answers and events

Each step has one answer: a report, a fault of the operation, or a refusal where the script itself
is at fault. Callbacks, finalizers and tasks leave events. An event belongs to the innermost step
that was running, and that step's answer carries it.
-/

namespace HostObjects.Script

/-- Why a step was not carried out. -/
inductive Refusal where
  /-- A register does not hold what the step needs. -/
  | badOperand
  /-- The step does not exist, or not in this environment. -/
  | badStep
  /-- The step would never come back: the heap is taken by an enclosing step, or the tasks of a
  run loop have no end. -/
  | wouldBlock
  /-- The options could not be read. -/
  | badOptions
deriving DecidableEq

/-- What a host function is for. -/
inductive Role where
  | callback (op : Operation)
  | getter
  | setter
  | function
deriving DecidableEq

mutual

/-- What a step reports. -/
inductive Report where
  | null
  | bool (b : Bool)
  | nat (n : Nat)
  | int (n : Int)
  | string (s : String)
  | text (t : Text)
  | value (v : Value)
  | node (n : Node)
  | fault (f : Fault) (more : List (String × Report))
  | list (rs : List Report)
  | parts (fields : List (String × Report))
  | answers (as : List Answer)

/-- How a step ended. -/
inductive Outcome where
  | done (r : Report)
  | failed (f : Fault)
  /-- It was refused. -/
  | refused (r : Refusal)

/-- The answer of a step. -/
inductive Answer where
  /-- How the step ended, and the events while it ran. -/
  | mk (outcome : Outcome) (log : List Event)

/-- Something that happened while a step ran. -/
inductive Event where
  | callback (role : Role) (of : String) (inputs : List (String × Report))
      (frame : List (String × Value)) (steps : Option (List Answer)) (tooDeep : Bool)
  | finalized (of : String) (className : Text) (object : Handle) (acts : List Report)
  | task (label : String) (steps : List Answer)

end

instance : Inhabited Report := ⟨.null⟩

/-- How the step ended. -/
def Answer.outcome : Answer → Outcome
  | .mk outcome _ => outcome

/-- The fault in which a step ended, if it did. -/
def Answer.fault? (a : Answer) : Option Fault :=
  match a.outcome with
  | .failed f => some f
  | _ => none

end HostObjects.Script
