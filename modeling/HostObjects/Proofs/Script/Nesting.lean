import HostObjects.Proofs.Script.GeneralSteps

/-!
# Scripts and the callbacks in them

Whatever is watched lasts through a script: through its steps by recursion on the
script, and through callbacks and tasks by induction on how deep they nest.  A callback
runs in the view of the operation that asks for it, so what it has to keep is what that
view keeps (`Deeper.Calm`); the watch that is open for the operation is open for the
callback, and for the views that the callback opens there are watches of their own.
-/

namespace HostObjects.Script

open Heap Play

variable {α : Type} {K : Watch} {base : Nat}

/-! ### Callbacks -/

section Callbacks

variable {run : Step → StateM World Answer} (runs : ∀ s, Maintains K.Holds (run s))

theorem maintains_useRule (f : HostFunction) (rules : List Rule) (req : Request α) :
    Maintains K.Holds (useRule f rules req) := by
  refine Maintains.get.bind fun w => ?_
  cases firstRule w f req 0 rules with
  | some found =>
      exact (Maintains.modify fun _ hw => hw.congr rfl rfl).bind fun _ => Maintains.pure _
  | none => exact Maintains.pure _

include runs

theorem maintains_runRuleSteps (steps : List (Bool × Step)) :
    Maintains K.Holds (runRuleSteps run steps) := by
  induction steps with
  | nil => exact Maintains.pure _
  | cons step rest ih =>
      obtain ⟨catches, s⟩ := step
      refine (runs s).bind fun a => ?_
      split
      · exact Maintains.pure _
      · exact ih.bind fun _ => Maintains.pure _

theorem maintains_runRule (r : Rule) : Maintains K.Holds (runRule run r) := by
  refine (maintains_runRuleSteps runs _).bind fun (answers, fault) => ?_
  cases fault with
  | some f => exact Maintains.pure _
  | none =>
      refine Maintains.get.bind fun w => ?_
      cases r.fault with
      | some f => exact Maintains.pure _
      | none => exact Maintains.pure _

theorem maintains_runCallback (f : HostFunction) (fn : ScriptedFunction) (req : Request α) :
    Maintains K.Holds (runCallback run f fn req) := by
  refine (maintains_useRule f fn.rules req).bind fun rule => ?_
  refine Maintains.bind (Maintains.modify fun w hw => hw.congr rfl rfl) fun _ => ?_
  have noted : ∀ out : Option (List Answer) × Except Fault (Option Value),
      Maintains K.Holds (do
        modify fun w => { w with frames := w.frames.tail }.note
          (.callback fn.role fn.label (inputsOf req) (frameOf req) out.1 false)
        return (rule, out.2)) :=
    fun out => Maintains.bind (Maintains.modify fun w hw => hw.congr rfl rfl) fun _ =>
      Maintains.pure _
  cases rule with
  | some r => exact (maintains_runRule runs r).bind noted
  | none => exact (Maintains.pure _).bind noted

variable {host : Host World} (opened : K.Open base) (scripted : host.toReclaimer = reclaimer)
  (lawful : host.Keeps K.session)
include opened scripted lawful

omit runs in
theorem keeps_conclude (rule : Option Rule) (result : Option Value) (req : Request α) :
    Preserves K.session (conclude host rule result req) := by
  cases req with
  | construct f args =>
      rcases result with _ | v
      · exact keeps_makeObject (opened.enduring scripted).lingering lawful none none
      · cases v with
        | object o => exact Preserves.pure _
        | _ => exact Preserves.throw _
  | _ => exact Preserves.pure _

theorem keeps_answerByScript (f : HostFunction) (req : Request α) :
    Preserves K.session (answerByScript host run f req) := by
  have still := opened.toStill
  refine (keeps_playing still (Maintains.get.bind fun _ => Maintains.pure _)).bind
    fun (known, depth) => ?_
  cases known with
  | none => exact Preserves.throw _
  | some fn =>
      refine Preserves.ite (fun _ => ?_) fun _ => ?_
      · exact Preserves.bind (keeps_playing still (Maintains.modify fun w hw => hw.congr rfl rfl))
          fun _ => Preserves.of_state fun _ hs => hs
      · refine (keeps_playing still (maintains_runCallback runs f fn req)).bind
          fun (rule, result) => ?_
        cases result with
        | ok v => exact keeps_conclude opened scripted lawful rule v req
        | error e => exact Preserves.throw _

end Callbacks

/-! ### Functions and constructors -/

section Functions

variable {host : Host World} (opened : K.Open base) (scripted : host.toReclaimer = reclaimer)
include opened scripted

theorem keeps_playMakeFunction (name : String) (rules : List Rule) :
    Preserves K.Holds (playMakeFunction host name rules) := by
  refine (keeps_defineFunction name .function rules []).bind fun f => ?_
  exact keeps_result (keeps_acting (keeps_makeFunction (opened.enduring scripted).lingering _ f))

theorem keeps_playMakeConstructor (as c : Option String) (rules : Option (List Rule)) :
    Preserves K.Holds (playMakeConstructor host as c rules) := by
  have enduring := opened.enduring scripted
  refine (keeps_class? c).bind fun c => (keeps_defineFunction? _ _ rules).bind fun f => ?_
  exact keeps_result
    (keeps_acting (keeps_holding enduring.toSturdy.tender _ (keeps_makeConstructor enduring c f)))

end Functions

/-! ### Tasks -/

theorem keeps_playDefer (group : String) (task : Task) :
    Preserves K.Holds (playDefer group task) := by
  refine (keeps_groupAt group).bind fun t => ?_
  exact Preserves.bind (meets_modify fun w hw => hw.defer t task) fun _ =>
    keeps_result (keeps_groupOf t)

/-- The watch while a turn of a group has run some more tasks. -/
def Watch.ahead (K : Watch) (t : HeapId) (n : Nat) : Watch :=
  { K with books := K.books.map fun b => b.ahead t n }

theorem Watch.ahead_zero (K : Watch) (t : HeapId) : K.ahead t 0 = K := by
  have same : ∀ b : Books, b.ahead t 0 = b := fun b => by
    rw [Books.ahead, Script.ahead_zero]
  simp only [Watch.ahead, same, Option.map_id']

theorem Watch.ahead_ahead (K : Watch) (t : HeapId) (m n : Nat) :
    (K.ahead t m).ahead t n = K.ahead t (m + n) := by
  have same : ∀ b : Books, (b.ahead t m).ahead t n = b.ahead t (m + n) := fun b => by
    simp only [Books.ahead, Script.ahead_ahead]
  simp only [Watch.ahead, Option.map_map, Function.comp_def, same]

/-- A turn that comes to an end has been run. -/
theorem Watch.Holds.ran {t : HeapId} {n : Nat} {w : World} (hw : (K.ahead t n).Holds w) :
    K.Holds (w.trace (.ran t n)) :=
  hw.rebook rfl rfl fun _ there => (hw.books _ (Option.mem_map_of_mem _ there)).ran

/-- A task that is taken off the queue is one more of the turn. -/
theorem holds_nextTask {t : HeapId} {task : Task} {w w' : World} (hw : K.Holds w)
    (taken : nextTask t w = (some task, w')) : (K.ahead t 1).Holds w' := by
  obtain ⟨none, -⟩ | ⟨g, task, rest, found, tasks, some⟩ := nextTask_cases t w
  · cases none.symm.trans taken
  · cases some.symm.trans taken
    have home : K.Home t { g with tasks := rest } := (hw.groups t g found).congr rfl
    refine hw.put home rfl rfl fun b there => ?_
    obtain ⟨b, followed, rfl⟩ := Option.map_eq_some_iff.mp there
    have kept := hw.books b followed
    exact kept.put (kept.booked.next found tasks rfl rfl rfl) rfl rfl rfl rfl

/-! ### What happens further in -/

/-- Callbacks keep whatever the views keep that they run in, and tasks whatever is
watched. -/
structure Deeper.Calm (d : Deeper) : Prop where
  answer : KeepsOpen d.host
  runTask : ∀ (L : Watch) (t : Task) (w : World), L.Holds w → L.Holds (d.runTask t w)

section Further

variable {d : Deeper} (calm : d.Calm)
include calm

/-- The tasks of a turn are one more for each task that it starts. -/
theorem holds_drain (t : HeapId) (budget : Nat) {w : World} (hw : K.Holds w) :
    (K.ahead t (drain (nextTask t) d.runTask budget w).1).Holds
      (drain (nextTask t) d.runTask budget w).2 := by
  induction budget generalizing K w with
  | zero => exact (K.ahead_zero t).symm ▸ hw
  | succ budget ih =>
      unfold drain
      rcases taken : nextTask t w with ⟨_ | task, w'⟩
      · obtain ⟨none, -⟩ | ⟨g, task, rest, -, -, some⟩ := nextTask_cases t w
        · cases none.symm.trans taken
          exact (K.ahead_zero t).symm ▸ hw
        · cases some.symm.trans taken
      · have rest := ih (calm.runTask _ task w' (holds_nextTask hw taken))
        rwa [Watch.ahead_ahead, Nat.add_comm] at rest

theorem keeps_runLoop (t : HeapId) : Preserves K.Holds (runLoop d t) := by
  have collected : Preserves K.Holds (withGroup t (collectScheduled d.host)) := by
    refine keeps_withGroup t fun start _ => (keeps_readingAtHand _).bind fun scheduled => ?_
    have sturdy : Sturdy d.host (K.lending (K.AtRest start) (some t)).session :=
      (K.still_atRest start (some t)).sturdy rfl
    exact Preserves.ite (fun _ => keeps_acting (keeps_collect sturdy.tender)) fun _ =>
      Preserves.pure _
  have drained : Meets K.Holds
      (modifyGet (drain (nextTask t) d.runTask turnBudget) : Play Nat)
      (fun ran => (K.ahead t ran).Holds) K.Holds :=
    Meets.modifyGet fun w hw => holds_drain calm t turnBudget hw
  refine (keeps_groupOf t).bind fun g => Preserves.get.bind fun w => ?_
  refine Preserves.ite (fun _ => Preserves.of_state fun _ hs => hs) fun _ => ?_
  refine Meets.bind drained fun ran => Meets.bind (meets_modify fun _ hw => hw.ran) fun _ => ?_
  exact Preserves.ite (fun _ => Preserves.of_state fun _ hs => hs) fun _ =>
    keeps_result collected

theorem keeps_playRunDeferred (group : String) (elsewhere : Bool) :
    Preserves K.Holds (playRunDeferred d group elsewhere) := by
  refine (keeps_groupAt group).bind fun t => (keeps_needUnlocked t).bind fun _ => ?_
  refine keeps_holdingGroup t ?_
  cases elsewhere with
  | false => exact keeps_runLoop calm t
  | true =>
      refine Preserves.get.bind fun w => keeps_fresh.bind fun n => ?_
      refine Preserves.bind (meets_modify fun _ hw => hw.congr rfl rfl) fun _ => ?_
      exact Meets.tryFinally (keeps_runLoop calm t) (meets_modify fun _ hw => hw.congr rfl rfl)

end Further

/-! ### Steps and scripts -/

/-- The answer of a step carries the events since it began. -/
theorem maintains_answering {act : Play Report} (keep : Preserves K.Holds act) :
    Maintains K.Holds (answering act) := by
  intro w hw
  have cleared : K.Holds { w with log := [] } := hw.congr rfl rfl
  exact (keep.state cleared).congr rfl rfl

theorem keeps_settle (as : Option String) {act : Play Result} (keep : Preserves K.Holds act) :
    Preserves K.Holds (do settle as (← act)) := by
  refine keep.bind fun r => ?_
  cases r with
  | value v => exact keeps_result (keeps_store as v)
  | report r => exact Preserves.pure _

theorem maintains_rounds {act : StateM World (List Answer)} (keep : Maintains K.Holds act)
    (times : Nat) (last : List Answer) : Maintains K.Holds (rounds act times last) := by
  induction times generalizing last with
  | zero => exact Maintains.pure _
  | succ n ih => exact keep.bind fun as => ih as

theorem keeps_blockReport {act : StateM World (List Answer)} (keep : Maintains K.Holds act) :
    Preserves K.Holds (blockReport act) :=
  keeps_result keep.lift

/-- What a watch must allow for steps to run in an environment. -/
def Watch.Allows (K : Watch) : Environment → Prop
  | .outside => True
  | .heap => K.Still
  | .view => ∃ base, K.Open base

/-- Heap steps are played where there is a heap at hand. -/
theorem keeps_needHeap {env : Environment} (allows : K.Allows env) {act : Play α}
    (keep : K.Still → Preserves K.Holds act) :
    Preserves K.Holds (do needHeap env; act) := by
  cases env with
  | outside => exact Preserves.of_state fun _ hw => hw
  | heap => exact keep allows
  | view =>
      obtain ⟨base, opened⟩ := allows
      exact keep opened.toStill

/-- View steps are played where a view is open. -/
theorem keeps_needView {env : Environment} (allows : K.Allows env) {act : Play α}
    (keep : ∀ base, K.Open base → Preserves K.Holds act) :
    Preserves K.Holds (do needView env; act) := by
  cases env with
  | outside | heap => exact Preserves.of_state fun _ hw => hw
  | view =>
      obtain ⟨base, opened⟩ := allows
      exact keep base opened

mutual

theorem maintains_runStep {d : Deeper} (calm : d.Calm) {K : Watch} {env : Environment}
    (allows : K.Allows env) (s : Step) : Maintains K.Holds (runStep d env s) := by
  cases s with
  | general as op =>
      exact maintains_answering (keeps_settle as (keeps_playGeneral rfl calm.answer op))
  | heap as op =>
      refine maintains_answering (keeps_needHeap allows fun still => ?_)
      exact keeps_settle as (keeps_playHeap rfl still op)
  | view as swallow op =>
      refine maintains_answering (keeps_needView allows fun base opened => ?_)
      exact keeps_settle as (keeps_playView rfl opened (calm.answer K base opened) swallow op)
  | classNew as spec => exact maintains_answering (keeps_result (keeps_defineClass as spec))
  | makeFunction as name rules =>
      refine maintains_answering (keeps_needView allows fun base opened => ?_)
      exact keeps_settle as (keeps_playMakeFunction opened rfl name rules)
  | makeConstructor as c rules =>
      refine maintains_answering (keeps_needView allows fun base opened => ?_)
      exact keeps_settle as (keeps_playMakeConstructor opened rfl as c rules)
  | defer group label body => exact maintains_answering (keeps_playDefer group ⟨label, body⟩)
  | runDeferred group elsewhere =>
      exact maintains_answering (keeps_playRunDeferred calm group elsewhere)
  | repeated times body =>
      have inside := maintains_runSteps calm allows body
      exact maintains_answering (keeps_blockReport (maintains_rounds inside times []))
  | enter context body =>
      refine maintains_answering ((keeps_contextIdAt context).bind fun id => ?_)
      refine keeps_holdingContext id (keeps_withView id fun L base opened => ?_)
      have allows : L.Allows .view := ⟨base, opened⟩
      exact keeps_blockReport (maintains_runSteps calm allows body)
  | scope body =>
      refine maintains_answering (keeps_needView allows fun base opened => ?_)
      exact keeps_withScope opened (keeps_blockReport (maintains_runSteps calm allows body))
  | lock group body =>
      refine maintains_answering ((keeps_groupAt group).bind fun t => ?_)
      refine keeps_holdingGroup t (keeps_withGroup t fun start _ => ?_)
      have allows : ((K.holding t).lending ((K.holding t).AtRest start) (some t)).Allows .heap :=
        (K.holding t).still_atRest start (some t)
      exact keeps_blockReport (maintains_runSteps calm allows body)
  | withHeap heap body =>
      have allows : (K.lending (fun _ => True) none).Allows .heap :=
        Watch.still_lending fun _ _ _ _ _ => trivial
      refine maintains_answering (keeps_withOwnHeap heap ?_)
      exact keeps_blockReport (maintains_runSteps calm allows body)

theorem maintains_runSteps {d : Deeper} (calm : d.Calm) {K : Watch} {env : Environment}
    (allows : K.Allows env) (ss : List Step) : Maintains K.Holds (runSteps d env ss) := by
  cases ss with
  | nil => exact Maintains.pure _
  | cons s ss =>
      exact (maintains_runStep calm allows s).bind fun _ =>
        (maintains_runSteps calm allows ss).bind fun _ => Maintains.pure _

end

theorem Watch.Holds.playTask {d : Deeper} (calm : d.Calm) (t : Task) {w : World} (hw : K.Holds w) :
    K.Holds (playTask d t w) := by
  have framed : K.Holds { w with frames := [] :: w.frames } := hw.congr rfl rfl
  have allows : K.Allows .outside := trivial
  exact (maintains_runSteps calm allows t.body _ framed).congr rfl rfl

/-- **Whatever is watched lasts through callbacks and tasks**, however deep they
nest. -/
theorem calm_deeper (n : Nat) : (deeper n).Calm := by
  induction n with
  | zero => exact ⟨fun _ _ _ _ _ _ => Preserves.throw _, fun _ _ _ hw => hw⟩
  | succ n ih =>
      refine ⟨fun L base opened α f req => ?_, fun L t w hw => hw.playTask ih t⟩
      have runs : ∀ s, Maintains L.Holds (runStep (deeper n) .view s) :=
        maintains_runStep ih ⟨base, opened⟩
      exact keeps_answerByScript runs opened rfl (ih.answer L base opened) f req

end HostObjects.Script
