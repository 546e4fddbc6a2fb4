import HostObjects.Value

/-!
# Faults

The ways in which an operation fails. One of them, `Fault.thrown`, is a script-level exception with
a value and may be swallowed; all others are violations of a contract or of a limit and always
reach the caller.
-/

namespace HostObjects

/-- Why an operation failed. -/
inductive Fault where
  /-- The memory limit leaves no room. -/
  | outOfMemory
  /-- The handle's object is gone. -/
  | staleHandle
  /-- The handle belongs to another heap. -/
  | foreignHandle
  /-- Prototype links would form, or do form, a cycle. -/
  | prototypeCycle
  /-- A prototype chain is longer than any walk goes. -/
  | prototypeChainTooDeep
  | invalidClass (reason : String)
  /-- The operation is bound to another thread. -/
  | wrongThread
  | typeError (reason : String)
  | notCallable
  | notConstructable
  /-- A callback threw a value. -/
  | thrown (value : Value)
deriving DecidableEq

namespace Fault

/-- The text of the fault. -/
def message : Fault → String
  | outOfMemory => "out of memory"
  | staleHandle => "invalid handle"
  | foreignHandle => "handle belongs to a different context group"
  | prototypeCycle => "prototype cycle"
  | prototypeChainTooDeep => "prototype chain too deep"
  | invalidClass reason => "invalid class definition: " ++ reason
  | wrongThread => "operation must run on the context group's bound thread"
  | typeError reason => "type error: " ++ reason
  | notCallable => "value is not callable"
  | notConstructable => "value is not a constructor"
  | thrown _ => "uncaught exception"

/-- Whether the fault is a script-level exception. -/
def isThrown : Fault → Bool
  | thrown _ => true
  | _ => false

/-- The result with a script-level exception replaced by a default answer. -/
def swallow {α : Type} (fallback : α) : Except Fault α → Except Fault α
  | .error (.thrown _) => .ok fallback
  | r => r

@[simp] theorem swallow_ok {α : Type} (d a : α) : swallow d (.ok a) = .ok a := rfl

@[simp] theorem swallow_thrown {α : Type} (d : α) (v : Value) :
    swallow d (.error (.thrown v)) = .ok d := rfl

end Fault

end HostObjects
