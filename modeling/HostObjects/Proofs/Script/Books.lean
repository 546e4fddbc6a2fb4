import HostObjects.Proofs.View.Callback
import HostObjects.Script.Run

/-!
# The books of the run loops

The trace of a world says which tasks were deferred to a group, which were started, and
what the turns of its run loop came to.  A world is `Booked` if the trace agrees with
the queues: of every group the tasks started are the first of those deferred, and the
queue holds the others; and what the turns have run is what was started, up to the tasks
of the turns under way.

All that ever happens to a queue is that a group comes to be, that a task is deferred,
that one is started, that a turn ends, and that the group goes.  Here is one lemma for
each.  `Books.Kept` adds who holds the groups, because a group that is held does not go.
-/

namespace HostObjects.Script

variable {w w' : World} {t u : HeapId} {g : Group Task} {task : Task} {n : Nat}

/-! ### What a trace says of a queue -/

/-- The task, if one was deferred to the group. -/
def Occurrence.deferred? (t : HeapId) : Occurrence → Option Task
  | .deferred u task => if u = t then some task else none
  | _ => none

/-- The task, if one of the group was started. -/
def Occurrence.started? (t : HeapId) : Occurrence → Option Task
  | .started u task => if u = t then some task else none
  | _ => none

/-- The number of tasks that a turn of the group has run. -/
def Occurrence.count (t : HeapId) : Occurrence → Nat
  | .ran u n => if u = t then n else 0
  | _ => 0

/-- The tasks deferred to a group, in the order in which they were deferred. -/
def deferredTo (t : HeapId) (past : List Occurrence) : List Task :=
  past.reverse.filterMap (Occurrence.deferred? t)

/-- The tasks of a group that were started, in the order in which they were started. -/
def startedOf (t : HeapId) (past : List Occurrence) : List Task :=
  past.reverse.filterMap (Occurrence.started? t)

/-- The sum of what the turns of a group have run. -/
def reportedBy (t : HeapId) (past : List Occurrence) : Nat :=
  (past.map (Occurrence.count t)).sum

section Trace

variable (past news : List Occurrence)

theorem deferredTo_append :
    deferredTo t (news ++ past) = deferredTo t past ++ deferredTo t news := by
  simp [deferredTo]

theorem startedOf_append :
    startedOf t (news ++ past) = startedOf t past ++ startedOf t news := by
  simp [startedOf]

theorem reportedBy_append :
    reportedBy t (news ++ past) = reportedBy t news + reportedBy t past := by
  simp [reportedBy]

theorem deferredTo_cons (o : Occurrence) :
    deferredTo t (o :: past) = deferredTo t past ++ (o.deferred? t).toList := by
  cases new : o.deferred? t <;> simp [deferredTo, new]

theorem startedOf_cons (o : Occurrence) :
    startedOf t (o :: past) = startedOf t past ++ (o.started? t).toList := by
  cases new : o.started? t <;> simp [startedOf, new]

theorem reportedBy_cons (o : Occurrence) :
    reportedBy t (o :: past) = o.count t + reportedBy t past := by
  simp [reportedBy]

end Trace

/-! ### Queues -/

/-- The queue of a group, if the group is alive. -/
def World.queue? (w : World) (t : HeapId) : Option (List Task) := (w.groups[t]?).map Group.tasks

theorem queue?_put (groups : w'.groups = w.groups.insert t g) (u : HeapId) :
    w'.queue? u = if t = u then some g.tasks else w.queue? u := by
  unfold World.queue?
  rw [groups, Std.HashMap.getElem?_insert]
  by_cases same : t = u <;> simp [same]

/-- A group that changes in other ways keeps its queue. -/
theorem queue?_put_same (groups : w'.groups = w.groups.insert t g)
    (same : w.queue? t = some g.tasks) (u : HeapId) : w'.queue? u = w.queue? u := by
  rw [queue?_put groups]
  split
  · next eq => rw [← eq, same]
  · rfl

theorem queue?_erase (w : World) (t u : HeapId) :
    { w with groups := w.groups.erase t }.queue? u = if t = u then none else w.queue? u := by
  unfold World.queue?
  rw [Std.HashMap.getElem?_erase]
  by_cases same : t = u <;> simp [same]

/-- What taking the next task of a group does. -/
theorem nextTask_cases (t : HeapId) (w : World) :
    (nextTask t w = (none, w) ∧ ∀ g, w.groups[t]? = some g → g.tasks = []) ∨
      ∃ g task rest, w.groups[t]? = some g ∧ g.tasks = task :: rest ∧
        nextTask t w =
          (some task,
            { w with groups := w.groups.insert t { g with tasks := rest } }.trace
              (.started t task)) := by
  unfold nextTask
  cases found : w.groups[t]? with
  | none => exact Or.inl ⟨rfl, nofun⟩
  | some g =>
      rw [Option.bind_some, Group.nextTask?]
      cases tasks : g.tasks with
      | nil =>
          refine Or.inl ⟨rfl, fun g' same => ?_⟩
          cases same
          exact tasks
      | cons task rest => exact Or.inr ⟨g, task, rest, rfl, tasks, rfl⟩

theorem nextTask_of_empty (queue : w.queue? t = some []) : nextTask t w = (none, w) := by
  obtain ⟨g, found, tasks⟩ := Option.map_eq_some_iff.mp queue
  obtain ⟨taken, -⟩ | ⟨g', task', rest', found', tasks', -⟩ := nextTask_cases t w
  · exact taken
  · cases found.symm.trans found'
    cases tasks'.symm.trans tasks

theorem nextTask_of_queue {rest : List Task} (queue : w.queue? t = some (task :: rest)) :
    ∃ w', nextTask t w = (some task, w') ∧ w'.queue? t = some rest ∧
      w'.registers = w.registers ∧ w'.functions = w.functions := by
  obtain ⟨g, found, tasks⟩ := Option.map_eq_some_iff.mp queue
  obtain ⟨-, idle⟩ | ⟨g', task', rest', found', tasks', taken⟩ := nextTask_cases t w
  · cases tasks.symm.trans (idle g found)
  · cases found.symm.trans found'
    cases tasks'.symm.trans tasks
    exact ⟨_, taken, (queue?_put rfl t).trans (if_pos rfl), rfl, rfl⟩

theorem queue?_defer {q : List Task} (task : Task) (queue : w.queue? t = some q) :
    (w.defer t task).queue? t = some (q ++ [task]) := by
  obtain ⟨g, found, rfl⟩ := Option.map_eq_some_iff.mp queue
  unfold World.defer
  rw [found]
  exact (queue?_put rfl t).trans (if_pos rfl)

/-! ### The books -/

/-- One turn of a group under way has run some more tasks. -/
def ahead (underWay : HeapId → Nat) (t : HeapId) (n : Nat) : HeapId → Nat :=
  fun u => underWay u + if t = u then n else 0

theorem ahead_zero (underWay : HeapId → Nat) (t : HeapId) : ahead underWay t 0 = underWay := by
  funext u
  simp [ahead]

theorem ahead_ahead (underWay : HeapId → Nat) (t : HeapId) (m n : Nat) :
    ahead (ahead underWay t m) t n = ahead underWay t (m + n) := by
  funext u
  unfold ahead
  split <;> omega

/-- **The trace agrees with the queues**, and adds to the trace of the start. -/
structure World.Booked (w : World) (start : List Occurrence) (underWay : HeapId → Nat) :
    Prop where
  later : start <:+ w.past
  /-- Tasks are started in the order in which they were deferred, and none twice. -/
  inOrder : ∀ t, startedOf t w.past <+: deferredTo t w.past
  /-- The tasks that were not started are in the queue. -/
  waiting : ∀ t q, w.queue? t = some q → deferredTo t w.past = startedOf t w.past ++ q
  /-- The turns have run the tasks that were started. -/
  counted : ∀ t, (startedOf t w.past).length = reportedBy t w.past + underWay t
  /-- The trace speaks of no group that is still to come. -/
  issued : ∀ t, w.issued ≤ t.number → w.queue? t = none ∧ deferredTo t w.past = []

/-- What a script is held to by the blocks around it. -/
structure Books where
  /-- The trace at the start. -/
  start : List Occurrence
  /-- The tasks that the turns under way have run so far, by group. -/
  underWay : HeapId → Nat
  /-- The groups that blocks under way hold. -/
  held : List HeapId
  /-- Those of them that were alive. -/
  staying : List HeapId
  held_of_staying : ∀ t ∈ staying, t ∈ held

namespace Books

/-- The books while one more block holds a group. -/
def holding (b : Books) (t : HeapId) : Books where
  start := b.start
  underWay := b.underWay
  held := t :: b.held
  staying := b.staying
  held_of_staying u there := List.mem_cons_of_mem t (b.held_of_staying u there)

/-- The books while a turn of a group has run some more tasks. -/
def ahead (b : Books) (t : HeapId) (n : Nat) : Books :=
  { b with underWay := Script.ahead b.underWay t n }

/-- The world agrees with the books. -/
structure Kept (b : Books) (w : World) : Prop where
  booked : w.Booked b.start b.underWay
  held : w.heldGroups = b.held
  staying : ∀ t ∈ b.staying, (w.queue? t).isSome = true

end Books

/-! ### What happens to queues -/

namespace World.Booked

variable {start : List Occurrence} {underWay : HeapId → Nat} (booked : w.Booked start underWay)
include booked

/-- Nothing happens to a queue, but groups may go. -/
theorem of_queues (past : w'.past = w.past)
    (queues : ∀ t q, w'.queue? t = some q → w.queue? t = some q)
    (issued : w.issued ≤ w'.issued) : w'.Booked start underWay where
  later := past ▸ booked.later
  inOrder t := past ▸ booked.inOrder t
  waiting t q there := past ▸ booked.waiting t q (queues t q there)
  counted t := past ▸ booked.counted t
  issued t fresh := by
    obtain ⟨gone, none⟩ := booked.issued t (Nat.le_trans issued fresh)
    refine ⟨?_, past ▸ none⟩
    cases there : w'.queue? t with
    | none => rfl
    | some q => exact (Option.some_ne_none q ((queues t q there).symm.trans gone)).elim

/-- A group that is alive was made before. -/
theorem number_lt (there : (w.queue? t).isSome = true) : t.number < w.issued := by
  refine Nat.lt_of_not_le fun fresh => ?_
  rw [(booked.issued t fresh).1] at there
  cases there

theorem startedOf_fresh (fresh : w.issued ≤ t.number) : startedOf t w.past = [] :=
  List.prefix_nil.mp ((booked.issued t fresh).2 ▸ booked.inOrder t)

/-- A group comes to be, with an empty queue. -/
theorem makeGroup (number : t.number = w.issued) (past : w'.past = w.past)
    (groups : w'.groups = w.groups.insert t g) (empty : g.tasks = [])
    (issued : w'.issued = w.issued + 1) : w'.Booked start underWay where
  later := past ▸ booked.later
  inOrder u := past ▸ booked.inOrder u
  waiting u q there := by
    rw [queue?_put groups] at there
    rw [past]
    split at there
    · next same =>
        cases there
        subst same
        have fresh : w.issued ≤ t.number := Nat.le_of_eq number.symm
        rw [(booked.issued t fresh).2, booked.startedOf_fresh fresh, empty]
        rfl
    · exact booked.waiting u q there
  counted u := past ▸ booked.counted u
  issued u fresh := by
    obtain ⟨gone, none⟩ := booked.issued u (by omega)
    have other : t ≠ u := by
      rintro rfl
      omega
    rw [queue?_put groups, if_neg other, past]
    exact ⟨gone, none⟩

/-- Something happens to the queue of a group that is alive: of what was waiting and what
is deferred, some is started and the rest is waiting now. -/
theorem happen {o : Occurrence} {queue : List Task} {underWay' : HeapId → Nat}
    (waiting : w.queue? t = some queue) (past : w'.past = o :: w.past)
    (groups : w'.groups = w.groups.insert t g) (issued : w'.issued = w.issued)
    (beside : ∀ u, t ≠ u → o.deferred? u = none ∧ o.started? u = none)
    (here : queue ++ (o.deferred? t).toList = (o.started? t).toList ++ g.tasks)
    (counted : ∀ u, (o.started? u).toList.length + underWay u = o.count u + underWay' u) :
    w'.Booked start underWay' := by
  have agree : ∀ u q, w'.queue? u = some q →
      deferredTo u w'.past = startedOf u w'.past ++ q := by
    intro u q there
    rw [queue?_put groups] at there
    rw [past, deferredTo_cons, startedOf_cons]
    by_cases same : t = u
    · subst same
      rw [if_pos rfl] at there
      cases there
      rw [booked.waiting t queue waiting, List.append_assoc, here, List.append_assoc]
    · obtain ⟨none, none'⟩ := beside u same
      rw [if_neg same] at there
      rw [none, none', booked.waiting u q there]
      simp
  refine ⟨?_, fun u => ?_, agree, fun u => ?_, fun u fresh => ?_⟩
  · rw [past]
    exact booked.later.trans (List.suffix_cons _ _)
  · by_cases same : t = u
    · subst same
      have left : w'.queue? t = some g.tasks := by rw [queue?_put groups, if_pos rfl]
      exact agree t g.tasks left ▸ List.prefix_append _ _
    · obtain ⟨none, none'⟩ := beside u same
      rw [past, deferredTo_cons, startedOf_cons, none, none']
      simpa using booked.inOrder u
  · have before := booked.counted u
    have more := counted u
    rw [past, startedOf_cons, reportedBy_cons, List.length_append]
    omega
  · rw [issued] at fresh
    have other : t ≠ u := by
      rintro rfl
      exact absurd (booked.number_lt (Option.isSome_of_eq_some waiting)) (Nat.not_lt.mpr fresh)
    obtain ⟨gone, nothing⟩ := booked.issued u fresh
    rw [queue?_put groups, if_neg other, past, deferredTo_cons, nothing, (beside u other).1]
    exact ⟨gone, rfl⟩

/-- A task is deferred. -/
theorem defer (found : w.groups[t]? = some g) (past : w'.past = .deferred t task :: w.past)
    (groups : w'.groups = w.groups.insert t (g.defer task)) (issued : w'.issued = w.issued) :
    w'.Booked start underWay := by
  have waiting : w.queue? t = some g.tasks := by rw [World.queue?, found]; rfl
  refine booked.happen waiting past groups issued (fun u other => ⟨if_neg other, rfl⟩) ?_
    fun _ => rfl
  simp [Occurrence.deferred?, Occurrence.started?, Group.defer]

/-- The first task of a queue is started, in a turn that has then run one more. -/
theorem next {rest : List Task} (found : w.groups[t]? = some g) (tasks : g.tasks = task :: rest)
    (past : w'.past = .started t task :: w.past)
    (groups : w'.groups = w.groups.insert t { g with tasks := rest })
    (issued : w'.issued = w.issued) : w'.Booked start (ahead underWay t 1) := by
  have waiting : w.queue? t = some (task :: rest) := by rw [World.queue?, found, ← tasks]; rfl
  refine booked.happen waiting past groups issued (fun u other => ⟨rfl, if_neg other⟩) ?_
    fun u => ?_
  · simp [Occurrence.deferred?, Occurrence.started?]
  · show (if t = u then some task else none).toList.length + underWay u =
      0 + (underWay u + if t = u then 1 else 0)
    split
    · rw [Option.toList_some, List.length_singleton]
      omega
    · rw [Option.toList_none, List.length_nil]
      omega

end World.Booked

/-- A turn has run its tasks and says how many. -/
theorem World.Booked.ran {start : List Occurrence} {underWay : HeapId → Nat}
    (booked : w.Booked start (ahead underWay t n)) :
    (w.trace (.ran t n)).Booked start underWay := by
  have deferred : ∀ u, deferredTo u (w.trace (.ran t n)).past = deferredTo u w.past :=
    fun u => (deferredTo_cons _ _).trans (List.append_nil _)
  have started : ∀ u, startedOf u (w.trace (.ran t n)).past = startedOf u w.past :=
    fun u => (startedOf_cons _ _).trans (List.append_nil _)
  refine ⟨booked.later.trans (List.suffix_cons _ _), fun u => ?_, fun u q there => ?_,
    fun u => ?_, fun u fresh => ?_⟩
  · rw [deferred, started]
    exact booked.inOrder u
  · rw [deferred, started]
    exact booked.waiting u q there
  · have counted := booked.counted u
    have more : reportedBy u (w.trace (.ran t n)).past =
        (if t = u then n else 0) + reportedBy u w.past := reportedBy_cons _ _
    rw [ahead] at counted
    rw [started, more]
    omega
  · rw [deferred]
    exact booked.issued u fresh

/-- **What is new in the trace** when a queue has been emptied: every task that was waiting
was started, and every task deferred since; and the turns have run those that are not of
the turn under way. -/
theorem World.Booked.news {start : List Occurrence} {underWay : HeapId → Nat}
    {queue : List Task} (before : w.Booked start underWay)
    (after : w'.Booked w.past (ahead underWay t n)) (waiting : w.queue? t = some queue)
    (emptied : w'.queue? t = some []) :
    ∃ news, w'.past = news ++ w.past ∧ startedOf t news = queue ++ deferredTo t news ∧
      (startedOf t news).length = n + reportedBy t news := by
  obtain ⟨news, past⟩ := after.later
  have left := after.waiting t [] emptied
  have counted := after.counted t
  rw [← past, startedOf_append] at left counted
  rw [deferredTo_append, before.waiting t queue waiting, List.append_nil, List.append_assoc,
    List.append_cancel_left_eq] at left
  rw [reportedBy_append, List.length_append, before.counted t, ahead, if_pos rfl] at counted
  exact ⟨news, past.symm, left.symm, by omega⟩

/-! ### What happens to groups that are held -/

namespace Books.Kept

variable {b : Books}

/-- Nothing happens to the queues, and nobody comes to hold a group or stops. -/
theorem of_queues (kept : b.Kept w) (past : w'.past = w.past)
    (queues : ∀ t, w'.queue? t = w.queue? t) (held : w'.heldGroups = w.heldGroups)
    (issued : w.issued ≤ w'.issued) : b.Kept w' where
  booked := kept.booked.of_queues past (fun t _ there => queues t ▸ there) issued
  held := held.trans kept.held
  staying t there := queues t ▸ kept.staying t there

/-- Nothing happens to the groups. -/
theorem congr (kept : b.Kept w) (groups : w'.groups = w.groups)
    (past : w'.past = w.past := by rfl) (held : w'.heldGroups = w.heldGroups := by rfl)
    (issued : w.issued ≤ w'.issued := by exact Nat.le_refl _) : b.Kept w' :=
  kept.of_queues past (fun t => by rw [World.queue?, groups, World.queue?]) held issued

/-- A group that nobody holds goes. -/
theorem erase (kept : b.Kept w) (free : t ∉ w.heldGroups) :
    b.Kept { w with groups := w.groups.erase t } where
  booked := kept.booked.of_queues rfl (fun u _ there => by
    rw [queue?_erase] at there
    split at there
    · cases there
    · exact there) (Nat.le_refl _)
  held := kept.held
  staying u there := by
    have other : t ≠ u := by
      rintro rfl
      exact free (kept.held ▸ b.held_of_staying t there)
    rw [queue?_erase, if_neg other]
    exact kept.staying u there

/-- A group that is put in its place keeps those alive that were. -/
theorem put (kept : b.Kept w) {b' : Books} (booked : w'.Booked b'.start b'.underWay)
    (groups : w'.groups = w.groups.insert t g) (held : w'.heldGroups = w.heldGroups)
    (same : b'.held = b.held) (staying : b'.staying = b.staying) : b'.Kept w' where
  booked := booked
  held := held.trans (kept.held.trans same.symm)
  staying u there := by
    rw [queue?_put groups]
    split
    · rfl
    · exact kept.staying u (staying ▸ there)

/-- A block begins to hold a group. -/
theorem hold (kept : b.Kept w) (t : HeapId) :
    (b.holding t).Kept { w with heldGroups := t :: w.heldGroups } where
  booked := kept.booked.of_queues rfl (fun _ _ there => there) (Nat.le_refl _)
  held := congrArg (t :: ·) kept.held
  staying := kept.staying

/-- The block that held the group last is done with it. -/
theorem unhold (kept : (b.holding t).Kept w) :
    b.Kept { w with heldGroups := w.heldGroups.erase t } where
  booked := kept.booked.of_queues rfl (fun _ _ there => there) (Nat.le_refl _)
  held := by
    show w.heldGroups.erase t = b.held
    rw [kept.held]
    exact List.erase_cons_head t b.held
  staying := kept.staying

/-- The turn of a group has run its tasks. -/
theorem ran (kept : (b.ahead t n).Kept w) : b.Kept (w.trace (.ran t n)) where
  booked := kept.booked.ran
  held := kept.held
  staying := kept.staying

end Books.Kept

end HostObjects.Script
