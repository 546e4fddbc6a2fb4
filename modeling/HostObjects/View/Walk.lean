import HostObjects.View.Session

/-!
# Walks along prototypes

A walk visits an object, then its prototype, then the prototype of that, until a visit gives the
answer or the chain ends. Callbacks may change the links during the walk, so every step reads the
link anew, and the walk itself sees to it that it ends: it visits at most `maxPrototypeChain`
objects and none twice.
-/

namespace HostObjects

variable {σ α β : Type}

/-- Walks from an object. A visit either ends the walk or hands a result to the next visit; at the
end of the chain the last such result is the outcome. -/
def walk (visit : β → Handle → Action σ (α ⊕ β)) :
    Nat → Std.HashSet Handle → β → Option Handle → Action σ (α ⊕ β)
  | _, _, acc, none => return .inr acc
  | 0, _, _, some _ => throw .prototypeChainTooDeep
  | budget + 1, visited, acc, some o => do
    if visited.contains o then throw .prototypeCycle
    match ← visit acc o with
    | .inl a => return .inl a
    | .inr acc =>
      let next ← Action.reading fun h => h.prototype o
      walk visit budget (visited.insert o) acc next

/-- Walks from an object with the full budget. -/
def walkFrom (visit : β → Handle → Action σ (α ⊕ β)) (start : β) (o : Option Handle) :
    Action σ (α ⊕ β) :=
  walk visit maxPrototypeChain ∅ start o

end HostObjects
