import HostObjects.Proofs.Script.Rest
import HostObjects.Proofs.Script.RunLoop

/-!
# Turns of the run loop

A turn of the run loop takes tasks off the queue of its group until none is left.  The
tasks may do all that scripts do: they may defer tasks to the same group, use its heap,
and run turns of the same loop, which then take tasks off the same queue.  What such a
script does to a queue is in the trace of its world, and the books of the run loops are
in order wherever the script stands (`booked_runSteps`).

So the tasks are started in the order in which they were deferred, whichever turn
starts them; a turn that gives an answer has left none waiting of those that it found
and those that were deferred while its tasks ran, and it gives the number of those that
no turn within it has run (`queues_run_in_order`).

The collection comes last.  What its finalizers defer therefore waits for the next turn,
and nothing else does (`finalizer_leaves_task`).
-/

namespace HostObjects.Script

open Heap Play

variable {w w' : World} {t : HeapId} {g : Group Task} {b : Books} {start : List Occurrence}
  {underWay : HeapId → Nat} {away : HeapId → Prop} {d : Deeper} {n : Nat}

/-! ### Following the run loops -/

/-- The watch that follows the run loops and asks where heaps are. -/
def Watch.following (b : Books) (away : HeapId → Prop) (lent : List Lent → Prop) : Watch :=
  { Watch.any with lent := lent, away := away, books := some b }

/-- The heaps that are not in their groups are those of certain groups. -/
def World.Away (away : HeapId → Prop) (w : World) : Prop :=
  ∀ (t : HeapId) (g : Group Task), w.groups[t]? = some g → g.heap = none → away t

theorem holds_following_iff {lent : List Lent → Prop} :
    (Watch.following b away lent).Holds w ↔ lent w.lent ∧ w.Away away ∧ b.Kept w := by
  refine ⟨fun hw => ⟨hw.lent, fun t g found => (hw.groups t g found).away, hw.books b rfl⟩,
    fun ⟨lent, home, kept⟩ => ⟨lent, fun t g found => ?_, fun b' there => ?_⟩⟩
  · exact ⟨fun _ _ => ⟨trivial, trivial⟩, home t g found⟩
  · cases there
    exact kept

/-- The books of a world in which nobody asks for a group to stay. -/
def booksOf (w : World) (start : List Occurrence) (underWay : HeapId → Nat) : Books :=
  ⟨start, underWay, w.heldGroups, [], nofun⟩

theorem World.Booked.kept (booked : w.Booked start underWay) :
    (booksOf w start underWay).Kept w :=
  ⟨booked, rfl, nofun⟩

/-- The books in which a group that is held is to stay. -/
def Books.keeping (b : Books) (held : t ∈ b.held) : Books :=
  { b with
    staying := [t]
    held_of_staying := fun _ one => List.mem_singleton.mp one ▸ held }

theorem Books.Kept.keeping (kept : b.Kept w) (held : t ∈ b.held)
    (there : (w.queue? t).isSome = true) : (b.keeping held).Kept w :=
  ⟨kept.booked, kept.held, fun _ one => List.mem_singleton.mp one ▸ there⟩

/-- The trace has grown since now. -/
theorem World.Booked.restart (booked : w.Booked start underWay) : w.Booked w.past underWay :=
  { booked with later := List.suffix_rfl }

/-- **The books are in order wherever a script stands.** -/
theorem booked_runSteps (n : Nat) (env : Environment) (steps : List Step)
    (booked : w.Booked start underWay) :
    (runSteps (deeper n) env steps w).2.Booked start underWay := by
  have hw : (Watch.following (booksOf w start underWay) (fun _ => True)
      fun ls => ls = [] ↔ w.lent = []).Holds w :=
    holds_following_iff.mpr ⟨Iff.rfl, fun _ _ _ _ => trivial, booked.kept⟩
  have after := maintains_runSteps (calm_deeper n) (Watch.allows_of_lent rfl env) steps w hw
  exact (holds_following_iff.mp after).2.2.booked

/-! ### A turn -/

theorem drain_le {ω τ : Type} (next : ω → Option τ × ω) (run : τ → ω → ω) (budget : Nat) (w : ω) :
    (drain next run budget w).1 ≤ budget := by
  induction budget generalizing w with
  | zero => exact Nat.le_refl 0
  | succ budget ih =>
      unfold drain
      rcases next w with ⟨_ | task, w'⟩
      · exact Nat.zero_le _
      · exact Nat.succ_le_succ (ih (run task w'))

/-- A loop that has turns left has emptied the queue. -/
theorem idle_of_drain_lt (run : Task → World → World) {budget : Nat}
    (left : (drain (nextTask t) run budget w).1 < budget)
    (found : (drain (nextTask t) run budget w).2.groups[t]? = some g) : g.tasks = [] := by
  induction budget generalizing w with
  | zero => cases left
  | succ budget ih =>
      unfold drain at left found
      obtain ⟨none, idle⟩ | ⟨g', task, rest, -, -, some⟩ := nextTask_cases t w
      · rw [none] at found
        exact idle g found
      · rw [some] at left found
        exact ih (Nat.lt_of_succ_lt_succ left) found

/-- The turn has taken every task off the queue, unless it has no end. -/
theorem queue?_afterTurn (few : tasksRun d t w ≠ turnBudget)
    (found : (afterTurn d t w).groups[t]? = some g) : (afterTurn d t w).queue? t = some [] := by
  have left : tasksRun d t w < turnBudget := Nat.lt_of_le_of_ne (drain_le _ _ _ _) few
  rw [World.queue?, found, Option.map_some, idle_of_drain_lt d.runTask left found]

section Turn

variable (t n)

/-- The books when a turn has run its tasks. -/
theorem kept_afterTasks (home : w.Away away) (kept : b.Kept w) :
    (afterTasks (deeper n) t w).Away away ∧
      (b.ahead t (tasksRun (deeper n) t w)).Kept (afterTasks (deeper n) t w) := by
  have hw : (Watch.following b away fun _ => True).Holds w :=
    holds_following_iff.mpr ⟨trivial, home, kept⟩
  have drained := holds_drain (calm_deeper n) t turnBudget hw
  exact (holds_following_iff.mp (show (Watch.following
    (b.ahead t (tasksRun (deeper n) t w)) away fun _ => True).Holds _ from drained)).2

theorem booked_afterTasks (booked : w.Booked start underWay) :
    (afterTasks (deeper n) t w).Booked start (ahead underWay t (tasksRun (deeper n) t w)) := by
  have anywhere : w.Away fun _ => True := fun _ _ _ _ => trivial
  exact (kept_afterTasks t n anywhere booked.kept).2.booked

/-- A turn leaves the books in order. -/
theorem booked_runLoop (booked : w.Booked start underWay) :
    (runLoop (deeper n) t w).2.Booked start underWay := by
  have hw : (Watch.following (booksOf w start underWay) (fun _ => True) fun _ => True).Holds w :=
    holds_following_iff.mpr ⟨trivial, fun _ _ _ _ => trivial, booked.kept⟩
  exact (holds_following_iff.mp ((keeps_runLoop (calm_deeper n) t).state hw)).2.2.booked

end Turn

/-- **What a turn comes to** that found tasks in the queue of a group and answers that it
has run a number of them: what is new in the trace before the turn says so, and what
comes after it, when the collection runs that is due. -/
structure World.Turned (w : World) (t : HeapId) (queue : List Task) (ran : Nat)
    (news late : List Occurrence) (w' : World) : Prop where
  past : w'.past = late ++ .ran t ran :: (news ++ w.past)
  /-- All that were waiting were started, and all that were deferred meanwhile. -/
  started : startedOf t news = queue ++ deferredTo t news
  /-- The turn has run those that no turn within it has run. -/
  counted : (startedOf t news).length = ran + reportedBy t news
  /-- All that happens after that is that finalizers defer tasks. -/
  deferred : ∀ o ∈ late, ∃ u task, o = .deferred u task ∧ w'.FinalizerDefers task
  /-- No task is waiting but those. -/
  waiting : w'.queue? t = some (deferredTo t late)

/-- If no finalizer defers anything, no task is left. -/
theorem World.Turned.idle {queue : List Task} {ran : Nat} {news late : List Occurrence}
    (turned : w.Turned t queue ran news late w')
    (quiet : ∀ task, ¬ w'.FinalizerDefers task) : late = [] ∧ w'.queue? t = some [] := by
  have none : late = [] := by
    refine List.eq_nil_iff_forall_not_mem.mpr fun o mem => ?_
    obtain ⟨u, task, -, defers⟩ := turned.deferred o mem
    exact quiet task defers
  have waiting := turned.waiting
  rw [none] at waiting
  exact ⟨none, waiting⟩

theorem turned_of_runLoop {r : Report} (found : w.groups[t]? = some g)
    (booked : w.Booked start underWay) (run : runLoop (deeper n) t w = (.ok r, w')) :
    r = .nat (tasksRun (deeper n) t w) ∧
      ∃ news late, w.Turned t g.tasks (tasksRun (deeper n) t w) news late w' ∧
        (late ≠ [] →
          ∃ h, (afterTasks (deeper n) t w).heapToTake? t = some h ∧ h.scheduled = true) := by
  obtain ⟨answer, few, ended⟩ := ended_of_runLoop run
  obtain ⟨h, -, late, taken, defers, undue, -⟩ := withGroup_collects ended
  obtain ⟨g₁, there, -⟩ := Option.bind_eq_some_iff.mp taken
  have queue : w.queue? t = some g.tasks := by rw [World.queue?, found]; rfl
  have emptied := queue?_afterTurn few there
  obtain ⟨news, past, started, counted⟩ :=
    booked.news (booked_afterTasks t n booked.restart) queue emptied
  have turned : w.Turned t g.tasks (tasksRun (deeper n) t w) news late w' := by
    refine ⟨?_, started, counted, fun o mem => ?_, ?_⟩
    · rw [defers.past, ← past]
      rfl
    · obtain ⟨u, task, same, finalizer⟩ := defers.deferred o mem
      exact ⟨u, task, same, (defers.finalizerDefers_iff task).mpr finalizer⟩
    · rw [defers.queue? t, emptied]
      rfl
  exact ⟨answer, news, late, turned, fun some =>
    ⟨h, taken, eq_true_of_ne_false fun none => some (undue none)⟩⟩

/-- A turn comes to an answer if somebody holds the group, its heap is not taken, and its
tasks come to an end. -/
theorem runLoop_answers (found : w.groups[t]? = some g) (mine : g.mayRunOn w.thread = true)
    (booked : w.Booked start underWay) (held : t ∈ w.heldGroups) (there : g.heap ≠ none)
    (few : tasksRun (deeper n) t w ≠ turnBudget) :
    ∃ r w', runLoop (deeper n) t w = (.ok r, w') := by
  have home : w.Away (fun u => u ≠ t) := by
    rintro u g' found' missing rfl
    cases found.symm.trans found'
    exact there missing
  have queue : (w.queue? t).isSome = true := by rw [World.queue?, found]; rfl
  obtain ⟨back, after⟩ := kept_afterTasks t n home (booked.kept.keeping held queue)
  -- Nobody has dropped the group, and its heap is back.
  have alive := after.staying t List.mem_cons_self
  rw [isSome_queue?] at alive
  obtain ⟨g₁, found₁⟩ := Option.isSome_iff_exists.mp alive
  obtain ⟨h, heap⟩ := Option.ne_none_iff_exists'.mp fun missing => back t g₁ found₁ missing rfl
  obtain ⟨taken, lent⟩ : ∃ taken, g₁.lend? = some taken := ⟨_, by rw [Group.lend?, heap]; rfl⟩
  obtain ⟨w', -, -, collected, -⟩ :=
    withGroup_collectScheduled (w := afterTurn (deeper n) t w) (deeper n) found₁ lent
  rw [runLoop_apply _ found, if_pos mine, if_neg few, bind_apply, collected]
  exact ⟨_, w', rfl⟩

/-- A turn on another thread than the one that the group is bound to does nothing. -/
theorem runLoop_elsewhere (d : Deeper) (found : w.groups[t]? = some g)
    (other : g.mayRunOn w.thread = false) :
    runLoop d t w = (.error (.fault .wrongThread), w) := by
  rw [runLoop_apply d found, other]
  rfl

/-! ### The order of the queues -/

/-- **Queues run in order.**  Wherever a script stands, the tasks of a group that were
started are the first of those deferred to it, in the order in which they were deferred;
the queue holds the others; and the turns of its run loop have answered with the number
of tasks started, but for those of the turns under way.

On the thread of the group, or if it has none, a turn that answers has started every
task that was waiting or was deferred meanwhile, itself or by a turn within it, up to
the collection at its end; its answer is the number of those tasks that no turn within
it has run.  What waits then is what the finalizers of that collection have deferred, if
one was due: if no finalizer defers anything, every task has been started that was
waiting or was deferred during the turn, and the queue is empty.  And the turn does
answer if somebody holds the group, its heap is not taken and the tasks come to an end.
On another thread it fails and does nothing. -/
theorem queues_run_in_order :
    (∀ (n : Nat) (env : Environment) (steps : List Step) (w : World)
      (start : List Occurrence) (underWay : HeapId → Nat), w.Booked start underWay →
      (runSteps (deeper n) env steps w).2.Booked start underWay) ∧
    ∀ (n : Nat) (t : HeapId) (w : World) (g : Group Task) (start : List Occurrence)
      (underWay : HeapId → Nat), w.groups[t]? = some g → w.Booked start underWay →
      (g.thread = none ∨ g.thread = some w.thread →
        (∀ r w', runLoop (deeper n) t w = (.ok r, w') →
          w'.Booked start underWay ∧ r = .nat (tasksRun (deeper n) t w) ∧
            ∃ news late, w.Turned t g.tasks (tasksRun (deeper n) t w) news late w' ∧
              (late ≠ [] → ∃ h, (afterTasks (deeper n) t w).heapToTake? t = some h ∧
                h.scheduled = true) ∧
              ((∀ task, ¬ w'.FinalizerDefers task) →
                late = [] ∧ w'.queue? t = some [])) ∧
        (t ∈ w.heldGroups → g.heap ≠ none → tasksRun (deeper n) t w ≠ turnBudget →
          ∃ r w', runLoop (deeper n) t w = (.ok r, w'))) ∧
      (∀ other, g.thread = some other → other ≠ w.thread →
        runLoop (deeper n) t w = (.error (.fault .wrongThread), w)) := by
  refine ⟨fun n env steps w start underWay => booked_runSteps n env steps,
    fun n t w g start underWay found booked => ⟨fun mine => ⟨fun r w' run => ?_, ?_⟩, ?_⟩⟩
  · have after := booked_runLoop t n booked
    rw [run] at after
    obtain ⟨answer, news, late, turned, due⟩ := turned_of_runLoop found booked run
    exact ⟨after, answer, news, late, turned, due, turned.idle⟩
  · have allowed : g.mayRunOn w.thread = true := by
      unfold Group.mayRunOn
      obtain none | some := mine
      · rw [none]
      · rw [some]
        exact beq_self_eq_true _
    exact runLoop_answers found allowed booked
  · intro other bound elsewhere
    refine runLoop_elsewhere _ found ?_
    unfold Group.mayRunOn
    rw [bound]
    exact beq_eq_false_iff_ne.mpr elsewhere

theorem booked_empty : World.Booked {} [] fun _ => 0 where
  later := List.suffix_rfl
  inOrder _ := List.prefix_rfl
  waiting t q there := by simp [World.queue?] at there
  counted _ := rfl
  issued t _ := ⟨by simp [World.queue?], rfl⟩

/-- Runs a loop whose first task defers another and runs the loop itself. -/
def turnScript : List Step :=
  [.general none (.groupNew "g" (some {})),
   .defer "g" "first" [.defer "g" "second" [], .runDeferred "g" false],
   .runDeferred "g" false]

/-- A task that defers another. -/
def deferringTask : Task := ⟨"first", [.defer "g" "second" []]⟩

/-- A world with a group that a register and a block hold. -/
def heldWorld : World where
  registers := { groups := (∅ : Table HeapId).insert "g" ⟨0⟩ }
  groups := (∅ : Std.HashMap HeapId (Group Task)).insert ⟨0⟩ (Group.new ⟨0⟩ {} ⟨0⟩)
  issued := 1
  heldGroups := [⟨0⟩]

/-- The world with the task in the queue of the group. -/
def turnWorld : World := heldWorld.defer ⟨0⟩ deferringTask

/-- The same world on another thread. -/
def otherThread : World := { turnWorld with thread := ⟨1⟩ }

/-- The group with the task in its queue. -/
def turnGroup : Group Task := (Group.new ⟨0⟩ {} ⟨0⟩).defer deferringTask

theorem drain_some {run : Task → World → World} {task : Task} {budget : Nat}
    (taken : nextTask t w = (some task, w')) :
    drain (nextTask t) run (budget + 1) w =
      ((drain (nextTask t) run budget (run task w')).1 + 1,
        (drain (nextTask t) run budget (run task w')).2) := by
  rw [drain, taken]

theorem playDefer_apply {group : String} {task : Task}
    (named : w.registers.groups[group]? = some t) :
    (playDefer group task w).2 = w.defer t task := by
  have changed : (modify fun w => w.defer t task : Play Unit) w = (.ok (), w.defer t task) := rfl
  unfold playDefer groupAt
  rw [bind_apply, get_bind_apply, named]
  show Prod.snd (((modify fun w => w.defer t task : Play Unit) >>= _) w) = _
  rw [bind_apply, changed]
  dsimp only
  rw [bind_apply, groupOf_apply]
  cases (w.defer t task).groups[t]? <;> rfl

theorem functions_defer (w : World) (t : HeapId) (task : Task) :
    (w.defer t task).functions = w.functions := by
  unfold World.defer
  split <;> rfl

theorem runTask_deferringTask {q : List Task} (named : w.registers.groups["g"]? = some t)
    (queue : w.queue? t = some q) :
    ((deeper 1).runTask deferringTask w).queue? t = some (q ++ [⟨"second", []⟩]) ∧
      ((deeper 1).runTask deferringTask w).functions = w.functions := by
  let v : World := { w with frames := [] :: w.frames, log := [] }
  have ran : (deeper 1).runTask deferringTask w = playTask (deeper 0) deferringTask w := rfl
  have named' : v.registers.groups["g"]? = some t := named
  have deferred : (playDefer "g" ⟨"second", []⟩ v).2 = v.defer t ⟨"second", []⟩ :=
    playDefer_apply named'
  have same : ((deeper 1).runTask deferringTask w).queue? t =
        (playDefer "g" ⟨"second", []⟩ v).2.queue? t ∧
      ((deeper 1).runTask deferringTask w).functions =
        (playDefer "g" ⟨"second", []⟩ v).2.functions := by
    rw [ran]
    unfold playTask deferringTask
    simp only [runSteps, runStep]
    exact ⟨rfl, rfl⟩
  rw [same.1, same.2, deferred]
  exact ⟨queue?_defer _ queue, functions_defer v t _⟩

/-- The turn runs the task and the one that it defers. -/
theorem drain_turnWorld :
    ∃ w', drain (nextTask ⟨0⟩) (deeper 1).runTask turnBudget turnWorld = (2, w') ∧
      w'.functions = ∅ := by
  have queue : heldWorld.queue? ⟨0⟩ = some [] := by simp [heldWorld, World.queue?, Group.new]
  have named : heldWorld.registers.groups["g"]? = some ⟨0⟩ := by simp [heldWorld]
  have kept : turnWorld.registers = heldWorld.registers := by
    unfold turnWorld World.defer
    split <;> rfl
  have waiting : turnWorld.queue? ⟨0⟩ = some [deferringTask] := queue?_defer deferringTask queue
  obtain ⟨w₁, first, queue₁, same, functions₁⟩ := nextTask_of_queue waiting
  have named₁ : w₁.registers.groups["g"]? = some ⟨0⟩ := by rw [same, kept, named]
  obtain ⟨queue₂, functions₂⟩ := runTask_deferringTask named₁ queue₁
  obtain ⟨w₂, second, queue₃, -, functions₃⟩ := nextTask_of_queue queue₂
  have queue₄ : ((deeper 1).runTask ⟨"second", []⟩ w₂).queue? ⟨0⟩ = some [] := queue₃
  have none := nextTask_of_empty queue₄
  rw [show turnBudget = 2 ^ 64 - 3 + 1 + 1 + 1 from rfl, drain_some first, drain_some second,
    drain, none]
  refine ⟨_, rfl, ?_⟩
  have ran : ((deeper 1).runTask ⟨"second", []⟩ w₂).functions = w₂.functions := rfl
  rw [ran, functions₃, functions₂, functions₁]
  exact functions_defer heldWorld ⟨0⟩ deferringTask

theorem tasksRun_turnWorld : tasksRun (deeper 1) ⟨0⟩ turnWorld = 2 := by
  obtain ⟨w', drained, -⟩ := drain_turnWorld
  rw [tasksRun, drained]

theorem quiet_turnWorld {r : Report} (run : runLoop (deeper 1) ⟨0⟩ turnWorld = (.ok r, w'))
    (task : Task) : ¬ w'.FinalizerDefers task := by
  obtain ⟨w₁, drained, none⟩ := drain_turnWorld
  rintro ⟨f, fn, found, -⟩
  rw [functions_of_runLoop run, afterTasks, drained, none] at found
  simp at found

theorem booked_turnWorld : turnWorld.Booked [] fun _ => 0 := by
  have held : heldWorld.Booked [] fun _ => 0 :=
    booked_empty.makeGroup (t := ⟨0⟩) rfl rfl rfl rfl rfl
  have found : heldWorld.groups[(⟨0⟩ : HeapId)]? = some (Group.new ⟨0⟩ {} ⟨0⟩) := by
    simp [heldWorld]
  unfold turnWorld World.defer
  rw [found]
  exact held.defer found rfl rfl rfl

/-- The books of the script are in order at its end; a turn of the group with the task
starts it and the task that it defers, and leaves none; and on another thread it does
nothing. -/
theorem queues_run_in_order_nested :
    (runSteps (deeper 2) .outside turnScript {}).2.Booked [] (fun _ => 0) ∧
      (∃ w' news, runLoop (deeper 1) ⟨0⟩ turnWorld = (.ok (.nat 2), w') ∧
        turnWorld.Turned ⟨0⟩ [deferringTask] 2 news [] w' ∧ w'.queue? ⟨0⟩ = some []) ∧
      runLoop (deeper 1) ⟨0⟩ otherThread = (.error (.fault .wrongThread), otherThread) := by
  obtain ⟨scripts, turns⟩ := queues_run_in_order
  have found : turnWorld.groups[(⟨0⟩ : HeapId)]? = some turnGroup := by
    simp [turnWorld, heldWorld, World.defer, World.trace, turnGroup]
  have held : (⟨0⟩ : HeapId) ∈ turnWorld.heldGroups := by
    simp [turnWorld, heldWorld, World.defer, World.trace]
  have few : tasksRun (deeper 1) ⟨0⟩ turnWorld ≠ turnBudget := by
    rw [tasksRun_turnWorld]
    decide
  have thread : turnWorld.thread = ⟨0⟩ := by
    simp [turnWorld, heldWorld, World.defer, World.trace]
  refine ⟨scripts 2 .outside turnScript {} [] _ booked_empty, ?_, ?_⟩
  · obtain ⟨mine, -⟩ := turns 1 ⟨0⟩ turnWorld turnGroup [] _ found booked_turnWorld
    obtain ⟨right, answers⟩ := mine (Or.inr (by rw [thread]; rfl))
    obtain ⟨r, w', run⟩ := answers held nofun few
    obtain ⟨-, rfl, news, late, turned, -, idle⟩ := right r w' run
    obtain ⟨rfl, empty⟩ := idle (quiet_turnWorld run)
    rw [tasksRun_turnWorld] at run turned
    exact ⟨w', news, run, turned, empty⟩
  · have booked : otherThread.Booked [] fun _ => 0 :=
      booked_turnWorld.of_queues rfl (fun _ _ there => there) (Nat.le_refl _)
    obtain ⟨-, elsewhere⟩ := turns 1 ⟨0⟩ otherThread turnGroup [] _ found booked
    exact elsewhere ⟨0⟩ rfl (show (⟨0⟩ : ThreadId) ≠ ⟨1⟩ by decide)

/-! ### A task that a finalizer defers -/

/-- A class whose finalizer is a host function. -/
def finalizedClass : Class where
  own :=
    { id := ⟨0⟩, version := 0, name := Text.ofString "Finalized", automatic := false
      values := [], functions := []
      callbacks := fun op => if op = .finalize then some ⟨0⟩ else none }
  ancestors := []

/-- A deferred heap that has a collection scheduled and an instance of the class as garbage. -/
def lateHeap : Heap :=
  after (new ⟨0⟩ ⟨1000, 300⟩ .deferred) (turnsOf [.allocInstance finalizedClass none ⟨⟨0⟩, 0, 0⟩])

/-- A group of that heap, without tasks. -/
def lateGroup : Group Task := { Group.new ⟨0⟩ {} ⟨0⟩ with heap := some lateHeap }

/-- The finalizer of the instance. -/
def lateFinalizer : ScriptedFunction :=
  ⟨"Finalized", .callback .finalize, [], [.defer "g" "late" []]⟩

/-- A world with that group, where the finalizer defers a task to it. -/
def lateWorld : World where
  registers := { groups := (∅ : Table HeapId).insert "g" ⟨0⟩ }
  groups := (∅ : Std.HashMap HeapId (Group Task)).insert ⟨0⟩ lateGroup
  functions := (∅ : Std.HashMap HostFunction ScriptedFunction).insert ⟨0⟩ lateFinalizer

/-- The instance when it has died. -/
def lateReaped : Reaped := ⟨⟨⟨0⟩, 2, 0⟩, ⟨some ⟨⟨0⟩, 0, 0⟩, some finalizedClass, .ordinary, [], none⟩⟩

theorem reaped_lateHeap (held : ClassId → Bool) :
    (lateHeap.collect held).reaped = [lateReaped] := by
  -- Without cached prototypes it does not matter which classes are held.
  have uncached : lateHeap.prepared held = lateHeap.prepared fun _ => false := by
    have none : lateHeap.classPrototypes = [] := by decide +kernel
    simp only [prepared, forgetPrototypes, none, List.filter_nil]
  have garbage : (lateHeap.prepared fun _ => false).garbage
      (lateHeap.prepared fun _ => false).marked.marks = [2] := by decide +kernel
  rw [reaped_collect, deadIn, uncached, garbage]
  rfl

/-- Letting the instance go puts the task at the end of the queue. -/
theorem queue?_lateReaped {q : List Task}
    (finalizer : w.functions[(⟨0⟩ : HostFunction)]? = some lateFinalizer)
    (named : w.registers.groups["g"]? = some t) (queue : w.queue? t = some q) :
    (letAllGo reclaimer [lateReaped] w).queue? t = some (q ++ [⟨"late", []⟩]) := by
  have ran : letAllGo reclaimer [lateReaped] w = discardAll reclaimer
      (runFinalizer ⟨0⟩ ⟨⟨0⟩, 2, 0⟩ finalizedClass.own none w).1
      (runFinalizer ⟨0⟩ ⟨⟨0⟩, 2, 0⟩ finalizedClass.own none w).2 := rfl
  have acted : runFinalizer ⟨0⟩ ⟨⟨0⟩, 2, 0⟩ finalizedClass.own none w =
      (none, (w.defer t ⟨"late", []⟩).note
        (.finalized "Finalized" finalizedClass.own.name ⟨⟨0⟩, 2, 0⟩ [.null])) := by
    unfold runFinalizer
    rw [finalizer]
    show (none, (w.deferAt "g" ⟨"late", []⟩).note _) = _
    rw [World.deferAt, named]
    rfl
  rw [ran, acted]
  exact queue?_defer _ queue

/-- **A task that a finalizer defers in the collection at the end of a turn waits for the
next one.** -/
theorem finalizer_leaves_task (d : Deeper) :
    ∃ w', runLoop d ⟨0⟩ lateWorld = (.ok (.nat 0), w') ∧
      w'.queue? ⟨0⟩ = some [⟨"late", []⟩] := by
  have found : lateWorld.groups[(⟨0⟩ : HeapId)]? = some lateGroup := by simp [lateWorld]
  have mine : lateGroup.mayRunOn lateWorld.thread = true := rfl
  have idle : tasksRun d ⟨0⟩ lateWorld = 0 := tasksRun_of_idle d found rfl
  have few : tasksRun d ⟨0⟩ lateWorld ≠ turnBudget := by
    rw [idle]
    decide
  have turned : afterTurn d ⟨0⟩ lateWorld = lateWorld.trace (.ran ⟨0⟩ 0) := by
    rw [afterTurn, idle, afterTasks_of_idle d found rfl]
  have found' : (afterTurn d ⟨0⟩ lateWorld).groups[(⟨0⟩ : HeapId)]? = some lateGroup := by
    rw [turned]
    exact found
  obtain ⟨g, lent, tasks⟩ : ∃ g, lateGroup.lend? = some (lateHeap, g) ∧ g.tasks = [] :=
    ⟨_, rfl, rfl⟩
  let w := (afterTurn d ⟨0⟩ lateWorld).taking ⟨0⟩ lateHeap g
  have due : lateHeap.scheduled = true := by decide +kernel
  obtain ⟨held, collected⟩ := collectScheduled_of_due d (w := w) rfl due
  rw [runLoop_apply d found, if_pos mine, if_neg few, bind_apply, withGroup_apply _ found' lent,
    collected, idle]
  refine ⟨_, rfl, ?_⟩
  rw [queue?_givingBack]
  -- The finalizer runs while the heap is away.
  let v : World := { w with lent := (afterTurn d ⟨0⟩ lateWorld).lent }
  show (letAllGo reclaimer (lateHeap.collect held).reaped v).queue? ⟨0⟩ = _
  have finalizer : v.functions[(⟨0⟩ : HostFunction)]? = some lateFinalizer := by
    show (afterTurn d ⟨0⟩ lateWorld).functions[(⟨0⟩ : HostFunction)]? = _
    rw [turned]
    simp [lateWorld, World.trace]
  have named : v.registers.groups["g"]? = some ⟨0⟩ := by
    show (afterTurn d ⟨0⟩ lateWorld).registers.groups["g"]? = _
    rw [turned]
    simp [lateWorld, World.trace]
  have queue : v.queue? ⟨0⟩ = some [] := by
    rw [queue?_put rfl, if_pos rfl, tasks]
  rw [reaped_lateHeap]
  exact queue?_lateReaped finalizer named queue

end HostObjects.Script
