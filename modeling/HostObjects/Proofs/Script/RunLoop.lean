import HostObjects.Proofs.Heap.Schedule
import HostObjects.Proofs.Script.AtHand
import HostObjects.Proofs.View.Lifecycle

/-!
# The run loop and the collection that waits for it

A turn of the run loop runs the tasks of a group, whatever they do to its heap, and then
takes the heap and runs the collection that is due, if one still is (`runLoop_collects`).
While the collection runs the heap is out of its group, so the finalizers that it leads
to cannot reach the heap: they leave releases to the group, and tasks, which then wait for
the next turn (`World.Defers`).

Together with what heaps do between turns this is the life of a scheduled collection
(`scheduled_collections`).
-/

namespace HostObjects.Script

open Heap Play

variable {α : Type} {host : Host World} {d : Deeper} {t : HeapId} {w w' : World}
  {g g' : Group Task} {h : Heap}

/-! ### Blocks on the heap of a group -/

theorem viewing_cons (f : Heap → α) {l : Lent} {rest : List Lent} (atHand : w.lent = l :: rest) :
    viewing f w = (.ok (f l.heap), w) := by
  unfold viewing Play.reading
  rw [acting_cons _ atHand]
  exact Prod.ext rfl (world_cons atHand)

theorem groupOf_apply (t : HeapId) (w : World) :
    groupOf t w =
      match w.groups[t]? with
      | some g => (.ok g, w)
      | none => (.error (.refusal .badOperand), w) := by
  unfold groupOf
  rw [get_bind_apply]
  cases w.groups[t]? <;> rfl

/-- The world with the heap of a group at hand. -/
def World.taking (w : World) (t : HeapId) (h : Heap) (g : Group Task) : World :=
  { w with groups := w.groups.insert t g, lent := ⟨h, []⟩ :: w.lent }

/-- The world with the heap at hand given back to a group. -/
def World.givingBack (w : World) (t : HeapId) : World :=
  { w with lent := w.lent.tail }.changeGroup t (Group.giveBack (w.lent.headD default).heap)

/-- The heap that whoever takes it from a group gets. -/
def World.heapToTake? (w : World) (t : HeapId) : Option Heap :=
  (w.groups[t]?).bind fun g => g.lend?.map Prod.fst

/-- The heap that lies in a group. -/
def World.heapIn? (w : World) (t : HeapId) : Option Heap := (w.groups[t]?).bind Group.heap

/-- A block takes the heap of a group, runs, and gives the heap back. -/
theorem withGroup_apply (act : Play α) (found : w.groups[t]? = some g)
    (lent : g.lend? = some (h, g')) :
    withGroup t act w =
      ((act (w.taking t h g')).1, ((act (w.taking t h g')).2).givingBack t) := by
  have taken : (modify fun w : World =>
      { w with groups := w.groups.insert t g', lent := ⟨h, []⟩ :: w.lent } : Play Unit) w =
        (.ok (), w.taking t h g') := rfl
  unfold withGroup
  rw [bind_apply, groupOf_apply, found]
  simp only [lent]
  rw [bind_apply, taken]
  dsimp only
  rw [tryFinally_apply]
  rcases act (w.taking t h g') with ⟨_ | _, _⟩ <;> rfl

/-- A block does not run without the heap. -/
theorem lend?_of_withGroup {act : Play α} {a : α} (run : withGroup t act w = (.ok a, w')) :
    ∃ g h g', w.groups[t]? = some g ∧ g.lend? = some (h, g') := by
  unfold withGroup at run
  rw [bind_apply, groupOf_apply] at run
  cases found : w.groups[t]? with
  | none =>
      rw [found] at run
      cases run
  | some g =>
      rw [found] at run
      cases lent : g.lend? with
      | none =>
          simp only [lent] at run
          cases run
      | some taken => exact ⟨g, taken.1, taken.2, rfl, lent⟩

theorem heapIn?_givingBack {l : Lent} {rest : List Lent} (atHand : w.lent = l :: rest)
    (there : (w.groups[t]?).isSome = true) :
    (w.givingBack t).heapIn? t = some l.heap := by
  obtain ⟨g, found⟩ := Option.isSome_iff_exists.mp there
  unfold World.givingBack World.changeGroup World.heapIn?
  simp [atHand, found, Group.giveBack]

/-! ### The collection at the end of a turn -/

/-- What becomes of a heap when the collection that is due runs, if one is. -/
structure Collected (h h' : Heap) : Prop where
  none_due : h'.scheduled = false
  collections : h'.collections = h.collections + if h.scheduled then 1 else 0
  untouched : h.scheduled = false → h' = h

/-- A group that changes in other ways keeps its queue. -/
theorem queue?_changeGroup {f : Group Task → Group Task} (tasks : ∀ g, (f g).tasks = g.tasks)
    (w : World) (t u : HeapId) : (w.changeGroup t f).queue? u = w.queue? u := by
  unfold World.changeGroup
  cases found : w.groups[t]? with
  | none => rfl
  | some g =>
      have queue : w.queue? t = some (f g).tasks := by rw [World.queue?, found, tasks]; rfl
      exact queue?_put_same rfl queue u

theorem queue?_givingBack (w : World) (t u : HeapId) : (w.givingBack t).queue? u = w.queue? u :=
  queue?_changeGroup (f := Group.giveBack (w.lent.headD default).heap) (fun _ => rfl) _ t u

/-- **What a collection does to the queues**: its finalizers defer tasks, which is all that
is new in the trace, and each waits at the end of its queue. -/
structure World.Defers (w w' : World) (late : List Occurrence) : Prop where
  past : w'.past = late ++ w.past
  functions : w'.functions = w.functions
  deferred : ∀ o ∈ late, ∃ t task, o = .deferred t task ∧ w.FinalizerDefers task
  queue? : ∀ t, w'.queue? t = (w.queue? t).map (· ++ deferredTo t late)

namespace World.Defers

variable {late more : List Occurrence} {w'' : World}

/-- Nothing happens to the queues. -/
theorem of_same (past : w'.past = w.past) (functions : w'.functions = w.functions)
    (queue? : ∀ t, w'.queue? t = w.queue? t) : w.Defers w' [] where
  past := past
  functions := functions
  deferred := nofun
  queue? t := by
    rw [queue? t]
    cases w.queue? t with
    | none => rfl
    | some q => exact congrArg some (List.append_nil q).symm

theorem refl (w : World) : w.Defers w [] := of_same rfl rfl fun _ => rfl

theorem finalizerDefers_iff (defers : w.Defers w' late) (task : Task) :
    w'.FinalizerDefers task ↔ w.FinalizerDefers task := by
  unfold FinalizerDefers
  rw [defers.functions]

theorem trans (first : w.Defers w' late) (second : w'.Defers w'' more) :
    w.Defers w'' (more ++ late) where
  past := by rw [second.past, first.past, List.append_assoc]
  functions := second.functions.trans first.functions
  deferred o mem := by
    obtain mem | mem := List.mem_append.mp mem
    · obtain ⟨t, task, same, some⟩ := second.deferred o mem
      exact ⟨t, task, same, (first.finalizerDefers_iff task).mp some⟩
    · exact first.deferred o mem
  queue? t := by
    rw [second.queue?, first.queue?, Option.map_map, deferredTo_append]
    simp only [Function.comp_def, List.append_assoc]

theorem changeGroup {f : Group Task → Group Task} (defers : w.Defers w' late)
    (tasks : ∀ g, (f g).tasks = g.tasks) (t : HeapId) :
    w.Defers (w'.changeGroup t f) late := by
  obtain ⟨past, functions⟩ : (w'.changeGroup t f).past = w'.past ∧
      (w'.changeGroup t f).functions = w'.functions := by
    unfold World.changeGroup
    split <;> exact ⟨rfl, rfl⟩
  exact defers.trans (of_same past functions (queue?_changeGroup tasks w' t))

/-- A task is deferred to a group, if the group is alive. -/
theorem defer {task : Task} (defers : w.Defers w' late) (some : w.FinalizerDefers task)
    (t : HeapId) : ∃ late, w.Defers (w'.defer t task) late := by
  unfold World.defer
  cases found : w'.groups[t]? with
  | none => exact ⟨late, defers⟩
  | some g =>
      have one : w'.Defers
          ({ w' with groups := w'.groups.insert t (g.defer task) }.trace (.deferred t task))
          [.deferred t task] := by
        refine ⟨rfl, rfl, fun o mem => ?_, fun u => ?_⟩
        · exact ⟨t, task, List.mem_singleton.mp mem, (defers.finalizerDefers_iff task).mpr some⟩
        · rw [queue?_put rfl]
          by_cases same : t = u
          · subst same
            rw [if_pos rfl, World.queue?, found]
            simp [deferredTo, Occurrence.deferred?, Group.defer]
          · rw [if_neg same]
            simp [deferredTo, Occurrence.deferred?, same]
      exact ⟨_, defers.trans one⟩

/-- Finalizers drop no group and start no task. -/
theorem letAllGo (defers : w.Defers w' late) (rs : List Reaped) :
    ∃ late, w.Defers (letAllGo reclaimer rs w') late :=
  released_letAllGo (M := fun w' => ∃ late, w.Defers w' late)
    (fun _ t r ⟨late, defers⟩ => ⟨late, defers.changeGroup (fun g => tasks_release g r) t⟩)
    (fun _ task ⟨_, before⟩ some _ t ⟨_, defers⟩ =>
      defers.defer ((before.finalizerDefers_iff task).mp some) t)
    (fun _ _ ⟨late, defers⟩ =>
      ⟨late, defers.past, defers.functions, defers.deferred, defers.queue?⟩)
    rs ⟨late, defers⟩

end World.Defers

theorem isSome_queue? (w : World) (t : HeapId) :
    (w.queue? t).isSome = (w.groups[t]?).isSome :=
  Option.isSome_map

/-- What is collected when a collection is due on the heap at hand. -/
theorem collectScheduled_of_due (d : Deeper) {l : Lent} {rest : List Lent}
    (atHand : w.lent = l :: rest) (due : l.heap.scheduled = true) :
    ∃ held, collectScheduled d.host w =
      (.ok (), worldOf ⟨{ l.heap.collect held with reaped := [] }, l.holding,
        letAllGo reclaimer (l.heap.collect held).reaped { w with lent := rest }⟩) := by
  have acted : acting (Action.collect d.host) w = _ := acting_cons _ atHand
  unfold Action.collect at acted
  rw [allocating_apply, settle_eq] at acted
  unfold collectScheduled
  rw [bind_apply, viewing_cons _ atHand, due]
  exact ⟨_, acted⟩

/-- **The collection that is due runs on the heap at hand.** -/
theorem collectScheduled_collects (d : Deeper) {l : Lent} {rest : List Lent}
    (atHand : w.lent = l :: rest) :
    ∃ w' l' rest' late, collectScheduled d.host w = (.ok (), w') ∧ w'.lent = l' :: rest' ∧
      w.Defers w' late ∧ (l.heap.scheduled = false → late = []) ∧
      Collected l.heap l'.heap := by
  cases due : l.heap.scheduled with
  | false =>
      have untouched : Collected l.heap l.heap :=
        ⟨due, by rw [due]; rfl, fun _ => rfl⟩
      refine ⟨w, l, rest, [], ?_, atHand, .refl w, fun _ => rfl, untouched⟩
      unfold collectScheduled
      rw [bind_apply, viewing_cons _ atHand, due]
      rfl
  | true =>
      -- The finalizers run on the groups, the collection on the heap at hand.
      obtain ⟨held, collected⟩ := collectScheduled_of_due d atHand due
      have around : w.Defers { w with lent := rest } [] := .of_same rfl rfl fun _ => rfl
      obtain ⟨late, deferred⟩ := around.letAllGo (l.heap.collect held).reaped
      refine ⟨_, _, _, late, collected, rfl,
        ⟨deferred.past, deferred.functions, deferred.deferred, deferred.queue?⟩, nofun, ?_⟩
      exact ⟨rfl, by rw [due]; rfl, fun none => nomatch due.symm.trans none⟩

/-- What a group lends is its heap. -/
theorem tasks_of_lend? (lent : g.lend? = some (h, g')) : g'.tasks = g.tasks := by
  obtain ⟨_, -, eq⟩ := Option.map_eq_some_iff.mp lent
  cases eq
  rfl

/-- Whoever finds the heap of a group there runs the collection that is due, which gives
the heap back; what it leaves in the queues is what its finalizers defer. -/
theorem withGroup_collectScheduled (d : Deeper) (found : w.groups[t]? = some g)
    (lent : g.lend? = some (h, g')) :
    ∃ w' h' late, withGroup t (collectScheduled d.host) w = (.ok (), w') ∧
      w.Defers w' late ∧ (h.scheduled = false → late = []) ∧ w'.heapIn? t = some h' ∧
      Collected h h' := by
  have queue : w.queue? t = some g'.tasks := by
    rw [World.queue?, found, tasks_of_lend? lent]
    rfl
  have taken : w.Defers (w.taking t h g') [] := .of_same rfl rfl (queue?_put_same rfl queue)
  obtain ⟨w₁, l, rest, late, collected, atHand, deferred, undue, swept⟩ :=
    collectScheduled_collects d (w := w.taking t h g') rfl
  have there : (w₁.groups[t]?).isSome = true := by
    rw [← isSome_queue?, deferred.queue?, taken.queue?, queue]
    rfl
  have back : w₁.Defers { w₁ with lent := w₁.lent.tail } [] := .of_same rfl rfl fun _ => rfl
  have given : w.Defers (w₁.givingBack t) (late ++ []) :=
    ((taken.trans deferred).trans back).changeGroup
      (f := Group.giveBack (w₁.lent.headD default).heap) (fun _ => rfl) t
  rw [List.append_nil] at given
  rw [withGroup_apply _ found lent, collected]
  exact ⟨_, l.heap, late, rfl, given, undue, heapIn?_givingBack atHand there, swept⟩

/-- A block that has run the collection that is due has found the heap of the group there. -/
theorem withGroup_collects {u : Unit}
    (run : withGroup t (collectScheduled d.host) w = (.ok u, w')) :
    ∃ h h' late, w.heapToTake? t = some h ∧ w.Defers w' late ∧
      (h.scheduled = false → late = []) ∧ w'.heapIn? t = some h' ∧ Collected h h' := by
  obtain ⟨g, h, g', found, lent⟩ := lend?_of_withGroup run
  have taken : w.heapToTake? t = some h := by
    rw [World.heapToTake?, found, Option.bind_some, lent]
    rfl
  obtain ⟨w₁, h', late, collected, after⟩ := withGroup_collectScheduled d found lent
  cases collected.symm.trans run
  exact ⟨h, h', late, taken, after⟩

/-- The world when a turn of the run loop of a group has run the tasks. -/
def afterTasks (d : Deeper) (t : HeapId) (w : World) : World :=
  (drain (nextTask t) d.runTask turnBudget w).2

/-- The number of tasks that a turn of the run loop of a group runs. -/
def tasksRun (d : Deeper) (t : HeapId) (w : World) : Nat :=
  (drain (nextTask t) d.runTask turnBudget w).1

/-- The world when the turn has said how many tasks it has run. -/
def afterTurn (d : Deeper) (t : HeapId) (w : World) : World :=
  (afterTasks d t w).trace (.ran t (tasksRun d t w))

theorem runLoop_apply (d : Deeper) (found : w.groups[t]? = some g) :
    runLoop d t w =
      if g.mayRunOn w.thread then
        if tasksRun d t w = turnBudget then (.error (.refusal .wouldBlock), afterTurn d t w)
        else
          (withGroup t (collectScheduled d.host) >>= fun _ => pure (.nat (tasksRun d t w)))
            (afterTurn d t w)
      else (.error (.fault .wrongThread), w) := by
  unfold runLoop
  rw [bind_apply, groupOf_apply, found]
  dsimp only
  rw [get_bind_apply]
  cases g.mayRunOn w.thread with
  | false => rfl
  | true =>
      have drained : (MonadStateOf.modifyGet (drain (nextTask t) d.runTask turnBudget) :
          Play Nat) w = (.ok (tasksRun d t w), afterTasks d t w) := rfl
      show (MonadStateOf.modifyGet (drain (nextTask t) d.runTask turnBudget) >>= _ :
        Play Report) w = _
      rw [bind_apply, drained, if_pos rfl]
      dsimp only
      rw [bind_apply]
      show (ite _ _ _ : Play Report) (afterTurn d t w) = _
      split <;> rfl

/-- A turn that answers has run its tasks to the end, and then the collection. -/
theorem ended_of_runLoop {r : Report} (run : runLoop d t w = (.ok r, w')) :
    r = .nat (tasksRun d t w) ∧ tasksRun d t w ≠ turnBudget ∧
      withGroup t (collectScheduled d.host) (afterTurn d t w) = (.ok (), w') := by
  cases found : w.groups[t]? with
  | none =>
      unfold runLoop at run
      rw [bind_apply, groupOf_apply, found] at run
      cases run
  | some g =>
      rw [runLoop_apply d found] at run
      split at run
      · split at run
        · cases run
        · next few =>
            obtain ⟨⟨⟩, w₁, ended, last⟩ := of_bind_ok run
            cases last
            exact ⟨rfl, few, ended⟩
      · cases run

/-- **A turn of the run loop ends with the collection that is due**, if the tasks left one
due, and leaves none due. -/
theorem runLoop_collects {r : Report} (run : runLoop d t w = (.ok r, w')) :
    ∃ h h', (afterTasks d t w).heapToTake? t = some h ∧ w'.heapIn? t = some h' ∧
      Collected h h' := by
  obtain ⟨-, -, ended⟩ := ended_of_runLoop run
  obtain ⟨h, h', -, taken, -, -, back, swept⟩ := withGroup_collects ended
  -- What the turn says of its tasks changes no group.
  exact ⟨h, h', taken, back, swept⟩

/-- The collection at the end of a turn makes no host function and drops none. -/
theorem functions_of_runLoop {r : Report} (run : runLoop d t w = (.ok r, w')) :
    w'.functions = (afterTasks d t w).functions := by
  obtain ⟨-, -, ended⟩ := ended_of_runLoop run
  obtain ⟨_, _, _, -, defers, -⟩ := withGroup_collects ended
  exact defers.functions

/-- A turn without tasks comes to the collection at once. -/
theorem drain_of_idle (d : Deeper) (found : w.groups[t]? = some g) (idle : g.tasks = []) :
    drain (nextTask t) d.runTask turnBudget w = (0, w) := by
  have queue : w.queue? t = some [] := by rw [World.queue?, found, Option.map_some, idle]
  have none := nextTask_of_empty queue
  rw [show turnBudget = 2 ^ 64 - 1 + 1 from rfl, drain, none]

theorem afterTasks_of_idle (d : Deeper) (found : w.groups[t]? = some g) (idle : g.tasks = []) :
    afterTasks d t w = w :=
  congrArg Prod.snd (drain_of_idle d found idle)

theorem tasksRun_of_idle (d : Deeper) (found : w.groups[t]? = some g) (idle : g.tasks = []) :
    tasksRun d t w = 0 :=
  congrArg Prod.fst (drain_of_idle d found idle)

/-! ### The life of a scheduled collection -/

/-- **Scheduled collections.**  While the collections of a heap are deferred, creating an
object or a property within the limit lets nothing die and runs no finalizer, and beyond
the threshold it leaves a collection scheduled or has run one.  A scheduled collection
stays scheduled in all states of a run, also of one that changes the mode, until a
collection runs.  And whatever the tasks do, a turn of the run loop that gives an answer
leaves none scheduled, and it has run one at its end exactly if one was scheduled when
its tasks had run. -/
theorem scheduled_collections :
    (∀ h : Heap, Reachable h → h.mode = .deferred → ∀ (held : ClassId → Bool) (c : Creation),
      c.IsNew h →
      (h.used + c.bytes ≤ h.limits.maxBytes →
        (c.run held h).collections = h.collections ∧ (c.run held h).reaped = h.reaped ∧
          ∀ q, h.isValid q = true → (c.run held h).isValid q = true) ∧
      (h.limits.threshold < h.used + c.bytes →
        (c.run held h).scheduled = true ∨
          (c.run held h).collections = h.collections + 1)) ∧
    (∀ h : Heap, h.scheduled = true → ∀ turns, ∀ h' ∈ states h turns,
      h'.scheduled = true ∨ h.collections < h'.collections) ∧
    ∀ (d : Deeper) (t : HeapId) (w : World) (r : Report) (w' : World),
      runLoop d t w = (.ok r, w') →
      ∃ h h', (afterTasks d t w).heapToTake? t = some h ∧ w'.heapIn? t = some h' ∧
        Collected h h' := by
  refine ⟨fun h reachable deferred held c new => ⟨?_, ?_⟩, ?_, ?_⟩
  · exact Creation.quiet_of_room reachable.intact deferred new
  · exact Creation.due_of_passed deferred new
  · exact fun h due turns => due_along due turns
  · exact fun d t w r w' run => runLoop_collects run

/-- A deferred heap that has a collection scheduled and one piece of garbage. -/
def dueHeap : Heap := after (new ⟨0⟩ ⟨1000, 300⟩ .deferred) (turnsOf [.allocPlain])

/-- A group of that heap, without tasks. -/
def dueGroup : Group Task := { Group.new ⟨0⟩ {} ⟨0⟩ with heap := some dueHeap }

/-- A world with that group. -/
def dueWorld : World := { groups := (∅ : Std.HashMap HeapId (Group Task)).insert ⟨0⟩ dueGroup }

/-- There an allocation frees nothing, pinning leaves the collection scheduled, and the
run loop runs it. -/
theorem scheduled_collections_due :
    (Creation.run (fun _ => false) dueHeap (.object (.ordinary none))).isValid ⟨⟨0⟩, 2, 0⟩ =
        true ∧
      (dueHeap.after (turnsOf [.pin (.object ⟨⟨0⟩, 2, 0⟩)])).scheduled = true ∧
      ∃ r w' h', runLoop (deeper 0) ⟨0⟩ dueWorld = (.ok r, w') ∧
        w'.heapIn? ⟨0⟩ = some h' ∧ h'.scheduled = false ∧ h'.collections = 1 := by
  obtain ⟨create, stay, turn⟩ := scheduled_collections
  have reachable : Reachable dueHeap := (Reachable.new _ _ _).after _
  have due : dueHeap.scheduled = true := by decide +kernel
  have found : dueWorld.groups[(⟨0⟩ : HeapId)]? = some dueGroup := by simp [dueWorld]
  have lent : dueGroup.lend? = some (dueHeap, { dueGroup with heap := none }) := rfl
  have idle : afterTasks (deeper 0) ⟨0⟩ dueWorld = dueWorld := afterTasks_of_idle _ found rfl
  refine ⟨?_, ?_, ?_⟩
  · obtain ⟨quiet, -⟩ := create dueHeap reachable (by decide +kernel) (fun _ => false)
      (.object (.ordinary none)) trivial
    exact (quiet (by decide +kernel)).2.2 _ (by decide +kernel)
  · have last := stay dueHeap due (turnsOf [.pin (.object ⟨⟨0⟩, 2, 0⟩)]) _
      (List.mem_cons_of_mem _ List.mem_cons_self)
    exact last.resolve_right (by decide +kernel)
  · obtain ⟨r, w', run⟩ : ∃ r w', runLoop (deeper 0) ⟨0⟩ dueWorld = (.ok r, w') := by
      have found' : (afterTurn (deeper 0) ⟨0⟩ dueWorld).groups[(⟨0⟩ : HeapId)]? =
          some dueGroup := by
        show (afterTasks (deeper 0) ⟨0⟩ dueWorld).groups[(⟨0⟩ : HeapId)]? = _
        rw [idle, found]
      obtain ⟨w₁, -, -, collected, -⟩ := withGroup_collectScheduled (deeper 0) found' lent
      have mine : dueGroup.mayRunOn dueWorld.thread = true := rfl
      have few : tasksRun (deeper 0) ⟨0⟩ dueWorld ≠ turnBudget := by
        rw [tasksRun_of_idle _ found rfl]
        decide
      rw [runLoop_apply _ found, if_pos mine, if_neg few, bind_apply, collected]
      exact ⟨_, _, rfl⟩
    obtain ⟨h, h', taken, there, collected⟩ := turn _ _ _ _ _ run
    rw [idle, World.heapToTake?, found] at taken
    cases taken
    refine ⟨r, w', h', run, there, collected.none_due, ?_⟩
    rw [collected.collections]
    decide +kernel

end HostObjects.Script
