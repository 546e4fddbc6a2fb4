import HostObjects.Heap.Basic
import Std.Data.HashSet.Basic

/-!
# Prototype links

Every walk along prototype links is bounded by `maxPrototypeChain` and never visits an object
twice. Changing a link walks the chain that the new prototype starts and refuses a change that
would close a cycle.
-/

namespace HostObjects

/-- The most objects that a walk along prototype links visits. -/
def maxPrototypeChain : Nat := 10000

namespace Heap

/-- Walks a chain and fails if it meets `o`, an object for the second time, an invalid handle, or
more objects than the budget allows. -/
def checkChain (h : Heap) (o : Handle) : Nat → Std.HashSet Handle → Option Handle →
    Except Fault Unit
  | _, _, none => .ok ()
  | 0, _, some _ => .error .prototypeChainTooDeep
  | budget + 1, visited, some p =>
    if visited.contains p || p == o then .error .prototypeCycle
    else
      match h.prototype p with
      | .ok next => checkChain h o budget (visited.insert p) next
      | .error e => .error e

/-- Sets the prototype of an object. -/
def setPrototype (o : Handle) (p : Option Handle) : HeapM Unit := do
  reading fun h => h.check o
  reading fun h =>
    if p = some o then .error .prototypeCycle
    else h.checkChain o maxPrototypeChain ∅ p
  change o fun obj => { obj with prototype := p }

end Heap

end HostObjects
