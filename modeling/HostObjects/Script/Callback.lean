import HostObjects.Script.World
import HostObjects.View.Convert

/-!
# Scripted callbacks

A host function of a scripted class answers a request by the first of its rules that is meant for
the inputs and not used up. The rule's steps run in the view of the callback, and the rule's fault
or value is evaluated after them. Each call leaves an event.

Callbacks may run operations that run callbacks. How the innermost of them behave is a parameter
here (`Deeper`); a limit on the callbacks under way ends the nesting.
-/

namespace HostObjects.Script

/-- The number of callbacks that may be under way at once. -/
def maxFrames : Nat := 8

/-! ### Inputs of a request -/

/-- The registers that a callback sees. -/
def frameOf {α : Type} : Request α → Frame
  | .setUp o => [("$obj", .object o)]
  | .has o _ => [("$obj", .object o)]
  | .get o _ => [("$obj", .object o)]
  | .set o _ v => [("$obj", .object o), ("$value", v)]
  | .delete o _ => [("$obj", .object o)]
  | .names o _ => [("$obj", .object o)]
  | .call f this args =>
    ("$obj", .object f) :: ("$this", this) ::
      args.mapIdx fun i v => ("$" ++ toString i, v)
  | .construct f args =>
    ("$obj", .object f) :: args.mapIdx fun i v => ("$" ++ toString i, v)
  | .hasInstance f v => [("$obj", .object f), ("$value", v)]
  | .convert o _ => [("$obj", .object o)]

/-- The name of a kind of value. -/
def kindName : Kind → String
  | .undefined => "Undefined"
  | .null => "Null"
  | .boolean => "Boolean"
  | .number => "Number"
  | .string => "String"
  | .object => "Object"

/-- The property name in a request. -/
def nameIn {α : Type} : Request α → Option Text
  | .has _ name | .get _ name | .set _ name _ | .delete _ name => some name
  | _ => none

/-- The conversion hint in a request. -/
def hintIn {α : Type} : Request α → Option String
  | .convert _ hint => some (kindName hint)
  | _ => none

/-- The number of arguments in a request. -/
def argcIn {α : Type} : Request α → Option Nat
  | .call _ _ args => some args.length
  | .construct _ args => some args.length
  | _ => none

/-- The number of names listed before a request. -/
def listedIn {α : Type} : Request α → Option Nat
  | .names _ listed => some listed
  | _ => none

/-- The inputs of a request that an event shows. -/
def inputsOf {α : Type} (req : Request α) : List (String × Report) :=
  ((nameIn req).map fun t => ("name", Report.text t)).toList ++
  ((hintIn req).map fun h => ("hint", Report.string h)).toList ++
  ((argcIn req).map fun n => ("argc", Report.nat n)).toList ++
  ((listedIn req).map fun n => ("acc", Report.nat n)).toList

/-! ### Choosing a rule -/

/-- Whether a condition admits an input; a condition on an input that the request does not have is
not looked at. -/
def Condition.admits {β : Type} [DecidableEq β] : Condition β → Option β → Bool
  | .any, _ => true
  | _, none => true
  | .equals x, some y => x = y
  | .never, some _ => false

/-- Whether a rule is meant for a request and not used up. -/
def RuleOf.isFor {α : Type} (r : Rule) (req : Request α) (used : Nat) : Bool :=
  r.name.admits (nameIn req) && r.hint.admits (hintIn req) && r.argc.admits (argcIn req) &&
    r.listed.admits (listedIn req) && r.times.all fun n => used < n

/-- The first rule for a request, from a position on, with its position. -/
def firstRule {α : Type} (w : World) (f : HostFunction) (req : Request α) :
    Nat → List Rule → Option (Nat × Rule)
  | _, [] => none
  | i, r :: rs =>
    if r.isFor req (w.uses.getD (f, i) 0) then some (i, r) else firstRule w f req (i + 1) rs

/-- Finds the rule to use and counts its use. -/
def useRule {α : Type} (f : HostFunction) (rules : List Rule) (req : Request α) :
    StateM World (Option Rule) := do
  match firstRule (← get) f req 0 rules with
  | some (i, r) =>
    modify fun w => { w with uses := w.uses.insert (f, i) (w.uses.getD (f, i) 0 + 1) }
    return some r
  | none => return none

/-! ### Running a rule -/

/-- What callbacks and tasks further in do. -/
structure Deeper where
  answer : {α : Type} → HostFunction → Request α → Action World α
  runTask : Task → World → World

/-- The scripted host, given what happens further in. -/
def Deeper.host (deeper : Deeper) : Host World where
  toReclaimer := reclaimer
  answer := deeper.answer
  holds := World.holdsClass

/-- The fault a step names. -/
def faultOf (w : World) : FaultOperand → Fault
  | .thrown v => .thrown (Play.evaluate w v)
  | .fault f => f

/-- Runs the steps of a rule up to a fault that is not caught. -/
def runRuleSteps (run : Step → StateM World Answer) :
    List (Bool × Step) → StateM World (List Answer × Option Fault)
  | [] => return ([], none)
  | (catches, s) :: rest => do
    let a ← run s
    match a.fault?, catches with
    | some f, false => return ([a], some f)
    | _, _ => do
      let (as, fault) ← runRuleSteps run rest
      return (a :: as, fault)

/-- Runs a rule: the answers of its steps if it has any, and its fault or value. -/
def runRule (run : Step → StateM World Answer) (r : Rule) :
    StateM World (Option (List Answer) × Except Fault (Option Value)) := do
  let (answers, fault) ← runRuleSteps run (r.steps.getD [])
  let shown := r.steps.map fun _ => answers
  match fault with
  | some f => return (shown, .error f)
  | none => do
    let w ← get
    match r.fault with
    | some f => return (shown, .error (faultOf w f))
    | none => return (shown, .ok (r.result.map (Play.evaluate w)))

/-- Whether a rule answers `true`. -/
def answersTrue (r : Option Rule) : Bool :=
  match r.bind RuleOf.result with
  | some (.literal (.bool b)) => b
  | _ => false

/-- The answer to a request, given the rule used and the value it answered with. -/
def conclude (host : Host World) (rule : Option Rule) (result : Option Value) {α : Type} :
    Request α → Action World α
  | .setUp _ => return ()
  | .has _ _ => return answersTrue rule
  | .get _ _ => return result
  | .set _ _ _ => return answersTrue rule
  | .delete _ _ => return answersTrue rule
  | .names _ _ => return (rule.map RuleOf.names).getD []
  | .call _ _ _ => return result.getD .undefined
  | .construct _ _ =>
    match result with
    | none => View.makeObject host none none
    | some (.object o) => return o
    | some _ => throw (.typeError "construct returned a non-object")
  | .hasInstance _ _ => return answersTrue rule
  | .convert _ _ => return result

/-- Runs the rule for a request within a frame of its own, and notes the call. -/
def runCallback {α : Type} (run : Step → StateM World Answer) (f : HostFunction)
    (fn : ScriptedFunction) (req : Request α) :
    StateM World (Option Rule × Except Fault (Option Value)) := do
  let frame := frameOf req
  let rule ← useRule f fn.rules req
  modify fun w => { w with frames := frame :: w.frames }
  let (answers, result) ←
    match rule with
    | some r => runRule run r
    | none => pure (none, .ok none)
  modify fun w =>
    { w with frames := w.frames.tail }.note
      (.callback fn.role fn.label (inputsOf req) frame answers false)
  return (rule, result)

/-- Answers a request by a scripted function. -/
def answerByScript (host : Host World) (run : Step → StateM World Answer) (f : HostFunction)
    {α : Type} (req : Request α) : Action World α := do
  let (known, depth) ← playing do
    let w ← get
    return (w.functions[f]?, w.frames.length)
  let some fn := known | throw (.typeError "host")
  if maxFrames ≤ depth then
    playing <| modify fun w =>
      w.note (.callback fn.role fn.label (inputsOf req) (frameOf req) none true)
    throw (.typeError "callback depth")
  let (rule, result) ← playing (runCallback run f fn req)
  match result with
  | .ok v => conclude host rule v req
  | .error e => throw e

end HostObjects.Script
