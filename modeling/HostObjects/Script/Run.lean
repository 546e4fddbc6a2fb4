import HostObjects.Group.RunLoop
import HostObjects.Script.GeneralPlay

/-!
# Running scripts

The steps of a script run in order, each in the environment that the enclosing block gives it, and
each gives an answer that carries the events since it began.

Blocks recurse on the script itself. Callbacks and tasks run steps that are not part of the step at
hand, so for them the nesting is counted: `deeper n` says what callbacks and tasks do when at most
`n` of them may be under way within one another. The number is far beyond what scripts reach,
because callbacks are limited by `maxFrames` and each nested task leaves its queue first.
-/

namespace HostObjects.Script

open Play

/-- What is at hand for a step. -/
inductive Environment where
  | outside
  | heap
  /-- A view, and with it the heap. -/
  | view
deriving DecidableEq

/-- Runs a step and gives its answer with the events that happened meanwhile. -/
def answering (act : Play Report) : StateM World Answer := fun w =>
  let before := w.log
  let (r, w) := act { w with log := [] }
  let outcome := match r with
    | .ok r => Outcome.done r
    | .error (.fault f) => .failed f
    | .error (.refusal r) => .refused r
  (.mk outcome w.log.reverse, { w with log := before })

/-- The report of a result, which is stored if it is a value. -/
def settle (as : Option String) (r : Result) : Play Report := do
  match r with
  | .value v =>
    store as v
    return .value v
  | .report r => return r

/-- Refuses outside of a heap. -/
def needHeap (env : Environment) : Play Unit := do
  if env = .outside then refuse .badStep

/-- Refuses outside of a view. -/
def needView (env : Environment) : Play Unit := do
  if env ≠ .view then refuse .badStep

/-- Makes a function object by rules. -/
def playMakeFunction (host : Host World) (name : String) (rules : List Rule) : Play Result := do
  let f ← defineFunction name .function rules []
  return .object (← acting (View.makeFunction host (.ofString name) f))

/-- Makes a constructor. -/
def playMakeConstructor (host : Host World) (as : Option String) (c : Option String)
    (rules : Option (List Rule)) : Play Result := do
  let c ← class? c
  let f ← defineFunction? (as.getD "") (.callback .construct) rules
  return .object (← acting (Action.holding c.toList (View.makeConstructor host c f)))

/-- The next task of a group, taken off its queue. -/
def nextTask (t : HeapId) (w : World) : Option Task × World :=
  match (w.groups[t]?).bind Group.nextTask? with
  | some (task, g) =>
    (some task, { w with groups := w.groups.insert t g }.trace (.started t task))
  | none => (none, w)

/-- Runs the collection that waits for the run loop, if one does. -/
def collectScheduled (host : Host World) : Play Unit := do
  if ← viewing Heap.scheduled then acting (Action.collect host)

/-- Runs the tasks of a group and then the collection that waits. Tasks without end would never
let it return. -/
def runLoop (deeper : Deeper) (t : HeapId) : Play Report := do
  if !(← groupOf t).mayRunOn (← get).thread then fail .wrongThread
  let ran ← modifyGet fun w => drain (nextTask t) deeper.runTask turnBudget w
  modify fun w => w.trace (.ran t ran)
  if ran = turnBudget then refuse .wouldBlock
  withGroup t (collectScheduled deeper.host)
  return .nat ran

/-- Runs steps on another thread. -/
def onOtherThread {α : Type} (act : Play α) : Play α := do
  let here := (← get).thread
  let n ← fresh
  modify fun w => { w with thread := ⟨n + 1⟩ }
  try act
  finally modify fun w => { w with thread := here }

/-- One turn of the run loop of a group. -/
def playRunDeferred (deeper : Deeper) (group : String) (elsewhere : Bool) : Play Report := do
  let t ← groupAt group
  needUnlocked t
  World.holdingGroup t <|
    if elsewhere then onOtherThread (runLoop deeper t) else runLoop deeper t

/-- Queues a task. -/
def playDefer (group : String) (task : Task) : Play Report := do
  let t ← groupAt group
  modify fun w => w.defer t task
  return .nat (← groupOf t).tasks.length

/-- Runs steps with a heap that has no group; its register is empty meanwhile. -/
def withOwnHeap {α : Type} (name : String) (act : Play α) : Play α := do
  let h ← need (← get).registers.heaps[name]?
  editRegisters fun r => { r with heaps := r.heaps.erase name }
  modify fun w => { w with lent := ⟨h, []⟩ :: w.lent }
  try act
  finally
    modify fun w =>
      let heap := (w.lent.headD default).heap
      { w with
        lent := w.lent.tail
        registers := { w.registers with heaps := w.registers.heaps.insert name heap } }

/-- Runs steps in a rooting scope of the heap at hand. -/
def withScope {α : Type} (act : Play α) : Play α := do
  let height ← viewing fun h => h.stack.size
  try act
  finally editing fun h => ((), h.cutStack height)

/-- Does something a number of times and keeps the last answers. -/
def rounds (act : StateM World (List Answer)) : Nat → List Answer → StateM World (List Answer)
  | 0, last => return last
  | n + 1, _ => do rounds act n (← act)

/-- The answers of a block as a report. -/
def blockReport (act : StateM World (List Answer)) : Play Report :=
  return .answers (← ExceptT.lift act)

mutual

/-- Runs a step. -/
def runStep (deeper : Deeper) (env : Environment) : Step → StateM World Answer
  | .general as op => answering do settle as (← playGeneral deeper.host op)
  | .heap as op => answering do
    needHeap env
    settle as (← playHeap deeper.host op)
  | .view as swallow op => answering do
    needView env
    settle as (← playView deeper.host swallow op)
  | .classNew as spec => answering do
    defineClass as spec
    return .null
  | .makeFunction as name rules => answering do
    needView env
    settle as (← playMakeFunction deeper.host name rules)
  | .makeConstructor as c rules => answering do
    needView env
    settle as (← playMakeConstructor deeper.host as c rules)
  | .defer group label body => answering (playDefer group ⟨label, body⟩)
  | .runDeferred group elsewhere => answering (playRunDeferred deeper group elsewhere)
  | .repeated times body => answering (blockReport (rounds (runSteps deeper env body) times []))
  | .enter context body => answering do
    let id ← contextIdAt context
    World.holdingContext id (withView id (blockReport (runSteps deeper .view body)))
  | .scope body => answering do
    needView env
    withScope (blockReport (runSteps deeper env body))
  | .lock group body => answering do
    let t ← groupAt group
    World.holdingGroup t (withGroup t (blockReport (runSteps deeper .heap body)))
  | .withHeap heap body => answering do
    withOwnHeap heap (blockReport (runSteps deeper .heap body))

/-- Runs steps in order. -/
def runSteps (deeper : Deeper) (env : Environment) : List Step → StateM World (List Answer)
  | [] => return []
  | s :: ss => do
    let a ← runStep deeper env s
    let as ← runSteps deeper env ss
    return a :: as

end

/-- Runs a task within an empty frame and notes it. -/
def playTask (deeper : Deeper) (t : Task) (w : World) : World :=
  let (as, w) := runSteps deeper .outside t.body { w with frames := [] :: w.frames }
  { w with frames := w.frames.tail }.note (.task t.label as)

/-- What callbacks and tasks do when a number of them may be under way. -/
def deeper : Nat → Deeper
  | 0 => ⟨fun _ _ => throw (.typeError "callback depth"), fun _ w => w⟩
  | n + 1 =>
    ⟨fun f req => answerByScript (deeper n).host (runStep (deeper n) .view) f req,
      fun t w => playTask (deeper n) t w⟩

/-- A nesting of callbacks and tasks that no script reaches. -/
def nestingBound : Nat := 1000000

/-! ### Whole scripts -/

/-- The names of a table in ascending order. -/
def sortedNames {α : Type} (t : Table α) : List String :=
  t.keys.mergeSort fun a b => !(b < a)

/-- Drops everything that the registers of a script still hold. -/
def dropAll : Play Unit := do
  for m in sortedNames (← get).registers.managed do let _ ← Play.dropManaged m
  for p in sortedNames (← get).registers.owned do let _ ← Play.dropOwned p
  for c in sortedNames (← get).registers.contexts do let _ ← Play.dropContext c
  for g in sortedNames (← get).registers.groups do let _ ← Play.dropGroup g
  for h in sortedNames (← get).registers.heaps do let _ ← Play.dropHeap h
  editRegisters fun r => { r with classes := ∅ }

/-- What a script gives: the answer of each step, and the events of dropping what is left. -/
structure Transcript where
  steps : List Answer
  ending : List Event
  /-- The names under which heaps are shown. -/
  label : HeapId → String

/-- Runs a script in an empty world. -/
def run (steps : List Step) : Transcript :=
  let (answers, w) := runSteps (deeper nestingBound) .outside steps {}
  let (_, w) := dropAll { w with log := [] }
  ⟨answers, w.log.reverse, w.label⟩

end HostObjects.Script
