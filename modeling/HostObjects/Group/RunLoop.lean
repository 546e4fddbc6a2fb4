import HostObjects.Group.Basic

/-!
# Run loops

A run loop takes tasks from a queue, oldest first, until the queue is empty. A task may queue more
tasks and may run the same loop itself, so the loop asks for the queue anew after each task. The
number of turns is bounded by a budget, because tasks that queue tasks for ever would never be done.
-/

namespace HostObjects

variable {ω τ : Type}

/-- Runs tasks until none is left or the budget is spent; the answer is the number of tasks run. -/
def drain (next : ω → Option τ × ω) (run : τ → ω → ω) : Nat → ω → Nat × ω
  | 0, w => (0, w)
  | budget + 1, w =>
    match next w with
    | (none, w) => (0, w)
    | (some t, w) =>
      let (n, w) := drain next run budget (run t w)
      (n + 1, w)

/-- A budget that no queue uses up whose tasks come to an end: they are counted in a machine
word. -/
def turnBudget : Nat := 2 ^ 64

end HostObjects
