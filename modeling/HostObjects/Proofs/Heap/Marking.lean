import HostObjects.Heap.Mark
import HostObjects.Proofs.Heap.Lookup

/-!
# What the marker marks

`ReachedFrom` is reachability as a relation: the start nodes that are present,
and whatever is present and referred to by a node that is reached.  The marker is
sound and complete for it (`isDone_run_iff`): started without marks, it ends with
a mark on exactly the objects that are reached from the nodes it starts with.

A node is covered (`Covers`) once it is met and scanned (`IsScanned`) once the loop
has gone through it.  One turn scans at most one node, which was covered and not
scanned, and covers what that node refers to; beyond that it changes neither set
(`isScanned_turn`, `covers_turn`).  All that is known of the loop follows from these
two facts: the invariant `Progress`, and that no node is scanned twice
(`Passes.nodup`).  When the work is done the two sets are one.

A handle in the work that is stale or foreign is not present, so none of these facts
speaks of it.
-/

namespace HostObjects

variable {h : Heap} {starts : List Node}

namespace Heap

/-! ### Reachability -/

/-- A host node is always present, an object as long as its handle is valid. -/
def IsPresent (h : Heap) : Node → Prop
  | .object o => h.isValid o = true
  | .host _ => True

/-- A node refers to another by a link or by an external edge. -/
def Refers (h : Heap) (n m : Node) : Prop := m ∈ h.linksOf n ∨ (n, m) ∈ h.edges

/-- The nodes reached from some start nodes through nodes that are present. -/
inductive ReachedFrom (h : Heap) (starts : List Node) : Node → Prop
  | start {n : Node} (mem : n ∈ starts) (present : h.IsPresent n) :
      ReachedFrom h starts n
  | next {n m : Node} (reached : ReachedFrom h starts n) (refers : h.Refers n m)
      (present : h.IsPresent m) : ReachedFrom h starts m

theorem linksOf_object {o : Handle} {obj : HostObject} (found : h.object o = .ok obj) :
    h.linksOf (.object o) = obj.links.map .object := by
  simp [linksOf, found]

/-- A set of nodes that has the start nodes and is closed under references has
everything that is reached. -/
theorem ReachedFrom.mem_of_closed {n : Node} (S : Node → Prop)
    (hstart : ∀ m ∈ starts, h.IsPresent m → S m)
    (hnext : ∀ m k, S m → h.IsPresent m → h.Refers m k → h.IsPresent k → S k)
    (reached : ReachedFrom h starts n) : S n ∧ h.IsPresent n := by
  induction reached with
  | start mem present => exact ⟨hstart _ mem present, present⟩
  | next _ refers present ih => exact ⟨hnext _ _ ih.1 ih.2 refers present, present⟩

end Heap

namespace Marking

open Heap

variable {s s' : Marking} {ns : List Node}

/-! ### Met, scanned, done -/

/-- The node was met: the object has its mark or waits to be visited, the host node
was seen. -/
def Covers (s : Marking) : Node → Prop
  | .object o => s.marks[o.index]? = some true ∨ o ∈ s.objects
  | .host k => k ∈ s.seen

/-- The loop has gone through the node. -/
def IsScanned (s : Marking) : Node → Prop
  | .object o => s.marks[o.index]? = some true
  | .host k => k ∈ s.seen ∧ k ∉ s.hosts

/-- The marker is done with a node: the object has its mark, the host node was
seen. -/
def IsDone (s : Marking) : Node → Prop
  | .object o => s.marks[o.index]? = some true
  | .host k => k ∈ s.seen

/-- What every state of the loop has, whatever it started with. -/
structure Orderly (h : Heap) (s : Marking) : Prop where
  /-- There is a mark a slot. -/
  marks_size : s.marks.size = h.slots.size
  /-- Host nodes that wait were met. -/
  seen_of_mem : ∀ k ∈ s.hosts, k ∈ s.seen
  /-- A host node waits once. -/
  hosts_nodup : s.hosts.Nodup

/-- The mark of an object is set or not. -/
theorem marked_of_not_isUnmarked {marks : Array Bool} {o : Handle}
    (size : marks.size = h.slots.size) (valid : h.isValid o = true)
    (old : ¬isUnmarked h marks o = true) : marks[o.index]? = some true := by
  obtain ⟨-, t, found, -⟩ := isValid_iff_slot.mp valid
  have bound : o.index < marks.size := size ▸ (Array.getElem?_eq_some_iff.mp found).1
  rw [isUnmarked_iff, Array.getElem?_eq_getElem bound] at old
  rw [Array.getElem?_eq_getElem bound]
  simpa [valid] using old

/-- Marking an object marks no other object that is present. -/
theorem marked_set_iff {marks : Array Bool} {o p : Handle}
    (fresh : isUnmarked h marks o = true) (valid : h.isValid p = true) :
    (marks.setIfInBounds o.index true)[p.index]? = some true ↔
      marks[p.index]? = some true ∨ o = p := by
  obtain ⟨valido, clear⟩ := isUnmarked_iff.mp fresh
  have bound := (Array.getElem?_eq_some_iff.mp clear).1
  rw [Array.getElem?_setIfInBounds]
  split
  · next same => simp [eq_of_isValid_of_index_eq valido valid same, ← same, bound]
  · next other =>
    refine ⟨Or.inl, fun either => either.resolve_right fun eq => other ?_⟩
    rw [eq]

/-! ### Meeting nodes -/

theorem mem_objects_meetAll {o : Handle} : o ∈ (s.meetAll h ns).objects ↔
    o ∈ s.objects ∨ .object o ∈ ns ∧ isUnmarked h s.marks o = true := by
  induction ns generalizing s with
  | nil => simp [meetAll]
  | cons n ns ih =>
    show o ∈ ((s.meet h n).meetAll h ns).objects ↔ _
    rw [ih, marks_meet]
    cases n with
    | host k =>
      have same : (s.meet h (.host k)).objects = s.objects := by
        simp only [meet]
        split <;> rfl
      simp [same]
    | object p =>
      simp only [meet]
      split <;> by_cases same : o = p <;> simp_all

theorem mem_seen_meetAll {k : HostNode} :
    k ∈ (s.meetAll h ns).seen ↔ k ∈ s.seen ∨ .host k ∈ ns := by
  induction ns generalizing s with
  | nil => simp [meetAll]
  | cons n ns ih =>
    show k ∈ ((s.meet h n).meetAll h ns).seen ↔ _
    rw [ih]
    cases n with
    | object o =>
      have same : (s.meet h (.object o)).seen = s.seen := by
        simp only [meet]
        split <;> rfl
      simp [same]
    | host l =>
      simp only [meet]
      split <;> by_cases same : k = l <;> simp_all

theorem mem_hosts_meetAll {k : HostNode} : k ∈ (s.meetAll h ns).hosts ↔
    k ∈ s.hosts ∨ .host k ∈ ns ∧ k ∉ s.seen := by
  induction ns generalizing s with
  | nil => simp [meetAll]
  | cons n ns ih =>
    show k ∈ ((s.meet h n).meetAll h ns).hosts ↔ _
    rw [ih]
    cases n with
    | object o =>
      have same : (s.meet h (.object o)).hosts = s.hosts ∧
          (s.meet h (.object o)).seen = s.seen := by
        simp only [meet]
        split <;> exact ⟨rfl, rfl⟩
      simp [same]
    | host l =>
      simp only [meet]
      split <;> by_cases same : k = l <;> simp_all

theorem Orderly.meet (orderly : Orderly h s) (n : Node) : Orderly h (s.meet h n) := by
  cases n with
  | object o =>
    simp only [Marking.meet]
    split <;> exact ⟨orderly.marks_size, orderly.seen_of_mem, orderly.hosts_nodup⟩
  | host k =>
    simp only [Marking.meet]
    split
    · exact orderly
    · next fresh =>
      refine ⟨orderly.marks_size, ?_, ?_⟩
      · exact List.forall_mem_cons.mpr ⟨List.mem_cons_self,
          fun l mem => List.mem_cons_of_mem k (orderly.seen_of_mem l mem)⟩
      · exact List.nodup_cons.mpr
          ⟨fun mem => fresh (orderly.seen_of_mem k mem), orderly.hosts_nodup⟩

theorem Orderly.meetAll (orderly : Orderly h s) (ns : List Node) :
    Orderly h (s.meetAll h ns) := by
  induction ns generalizing s with
  | nil => exact orderly
  | cons n ns ih => exact ih (orderly.meet n)

/-- Meeting nodes scans none. -/
theorem isScanned_meetAll (orderly : Orderly h s) (ns : List Node) (m : Node) :
    (s.meetAll h ns).IsScanned m ↔ s.IsScanned m := by
  cases m with
  | object o => simp [IsScanned]
  | host k =>
    have queued := orderly.seen_of_mem k
    simp only [IsScanned, mem_seen_meetAll, mem_hosts_meetAll]
    tauto

/-- Meeting nodes covers these nodes and no others. -/
theorem covers_meetAll (orderly : Orderly h s) (ns : List Node) {m : Node}
    (present : h.IsPresent m) : (s.meetAll h ns).Covers m ↔ s.Covers m ∨ m ∈ ns := by
  cases m with
  | host k => exact mem_seen_meetAll
  | object o =>
    have marked := marked_of_not_isUnmarked orderly.marks_size present
    simp only [Covers, marks_meetAll, mem_objects_meetAll]
    tauto

theorem mem_refs_iff {n m : Node} :
    m ∈ h.linksOf n ++ h.edges.targets n ↔ h.Refers n m := by
  rw [List.mem_append, EdgeTable.mem_targets_iff]
  rfl

/-! ### One turn -/

/-- What a turn takes off the work. -/
inductive Taken (h : Heap) : Marking → Option Node → Marking → Prop
  /-- An object that is marked by now, or a handle that is not valid. -/
  | old {marks : Array Bool} {seen : List HostNode} {o : Handle} {objects : List Handle}
      {hosts : List HostNode} (old : ¬isUnmarked h marks o = true) :
      Taken h ⟨marks, seen, o :: objects, hosts⟩ none ⟨marks, seen, objects, hosts⟩
  | object {marks : Array Bool} {seen : List HostNode} {o : Handle} {objects : List Handle}
      {hosts : List HostNode} (fresh : isUnmarked h marks o = true) :
      Taken h ⟨marks, seen, o :: objects, hosts⟩ (some (.object o))
        ⟨marks.setIfInBounds o.index true, seen, objects, hosts⟩
  | host {marks : Array Bool} {seen : List HostNode} {k : HostNode} {hosts : List HostNode} :
      Taken h ⟨marks, seen, [], k :: hosts⟩ (some (.host k)) ⟨marks, seen, [], hosts⟩

theorem taken_of_take? {n : Option Node} (taken : s.take? h = some (n, s')) :
    Taken h s n s' := by
  unfold take? at taken
  split at taken
  · split at taken
    · next fresh =>
      cases taken
      exact .object fresh
    · next old =>
      cases taken
      exact .old old
  · cases taken
    exact .host
  · cases taken

theorem work_of_take?_eq_none (finished : s.take? h = none) :
    s.objects = [] ∧ s.hosts = [] := by
  unfold take? at finished
  split at finished
  · split at finished <;> cases finished
  · cases finished
  · exact ⟨rfl, rfl⟩

namespace Taken

variable {n : Option Node}

theorem orderly (taken : Taken h s n s') (orderly : Orderly h s) : Orderly h s' := by
  obtain ⟨size, seen, nodup⟩ := orderly
  cases taken with
  | old => exact ⟨size, seen, nodup⟩
  | object => exact ⟨by simpa using size, seen, nodup⟩
  | host =>
    exact ⟨size, fun k mem => seen k (List.mem_cons_of_mem _ mem), (List.nodup_cons.mp nodup).2⟩

/-- The node that is taken off the work was met, and is scanned for the first time. -/
theorem fresh {m : Node} (taken : Taken h s (some m) s') (orderly : Orderly h s) :
    h.IsPresent m ∧ s.Covers m ∧ ¬s.IsScanned m := by
  cases taken with
  | object fresh =>
    obtain ⟨valid, clear⟩ := isUnmarked_iff.mp fresh
    exact ⟨valid, Or.inr List.mem_cons_self, by simp [IsScanned, clear]⟩
  | host =>
    exact ⟨trivial, orderly.seen_of_mem _ List.mem_cons_self,
      fun scanned => scanned.2 List.mem_cons_self⟩

/-- What is taken off the work is scanned, and nothing else. -/
theorem isScanned (taken : Taken h s n s') (orderly : Orderly h s) {m : Node}
    (present : h.IsPresent m) : s'.IsScanned m ↔ s.IsScanned m ∨ n = some m := by
  cases taken with
  | old => simp [IsScanned]
  | object fresh =>
    cases m with
    | host k => simp [IsScanned]
    | object p => simp [IsScanned, marked_set_iff fresh present]
  | host =>
    cases m with
    | object p => simp [IsScanned]
    | host k =>
      have once := (List.nodup_cons.mp orderly.hosts_nodup).1
      have queued := orderly.seen_of_mem _ List.mem_cons_self
      simp only [IsScanned, List.mem_cons, Option.some.injEq, Node.host.injEq] at *
      grind

/-- What is taken off the work stays covered. -/
theorem covers (taken : Taken h s n s') (orderly : Orderly h s) {m : Node}
    (present : h.IsPresent m) : s'.Covers m ↔ s.Covers m := by
  cases taken with
  | host => cases m <;> simp [Covers]
  | old old =>
    cases m with
    | host k => simp [Covers]
    | object p =>
      have marked := marked_of_not_isUnmarked (o := p) orderly.marks_size present
      simp only [Covers, List.mem_cons]
      grind
  | object fresh =>
    cases m with
    | host k => simp [Covers]
    | object p =>
      simp only [Covers, marked_set_iff fresh present, List.mem_cons]
      rw [or_assoc, eq_comm (a := p)]

end Taken

section Turn

variable {n : Option Node}

theorem Orderly.turn (orderly : Orderly h s) (taken : s.take? h = some (n, s')) :
    Orderly h (n.elim s' (s'.scan h)) := by
  have left := (taken_of_take? taken).orderly orderly
  cases n with
  | none => exact left
  | some a => exact left.meetAll _

/-- **A turn scans the node that it takes off the work** and no other. -/
theorem isScanned_turn (orderly : Orderly h s) (taken : s.take? h = some (n, s')) {m : Node}
    (present : h.IsPresent m) :
    (n.elim s' (s'.scan h)).IsScanned m ↔ s.IsScanned m ∨ n = some m := by
  have taken := taken_of_take? taken
  rw [← taken.isScanned orderly present]
  cases n with
  | none => exact Iff.rfl
  | some a => exact isScanned_meetAll (taken.orderly orderly) _ m

/-- **A turn covers what the node refers to that it takes off the work**, and nothing else. -/
theorem covers_turn (orderly : Orderly h s) (taken : s.take? h = some (n, s')) {m : Node}
    (present : h.IsPresent m) :
    (n.elim s' (s'.scan h)).Covers m ↔ s.Covers m ∨ ∃ a, n = some a ∧ h.Refers a m := by
  have taken := taken_of_take? taken
  rw [← taken.covers orderly present]
  cases n with
  | none => simp
  | some a =>
    rw [Option.elim, scan, covers_meetAll (taken.orderly orderly) _ present, mem_refs_iff]
    simp

end Turn

/-! ### The loop -/

/-- The loop goes from one state to another, through these nodes in this order. -/
inductive Passes (h : Heap) : Marking → List Node → Marking → Prop
  /-- The work is done. -/
  | done {s : Marking} (finished : s.take? h = none) : Passes h s [] s
  | turn {s s' e : Marking} {n : Option Node} {ns : List Node}
      (taken : s.take? h = some (n, s')) (rest : Passes h (n.elim s' (s'.scan h)) ns e) :
      Passes h s (n.toList ++ ns) e

/-- **The loop ends.** -/
theorem passes_run (h : Heap) (s : Marking) : ∃ ns, Passes h s ns (run h s) := by
  induction s using Marking.run.induct h with
  | case1 s finished =>
    refine ⟨[], ?_⟩
    rw [run]
    split
    · exact .done finished
    · next taken => rw [finished] at taken; cases taken
  | case2 s n s' taken ih =>
    obtain ⟨ns, rest⟩ := ih
    refine ⟨n.toList ++ ns, .turn taken ?_⟩
    rw [run]
    split
    · next finished => rw [taken] at finished; cases finished
    · next taken' =>
      rw [taken] at taken'
      cases taken'
      exact rest

namespace Passes

variable {e : Marking}

theorem work_eq_nil (passes : Passes h s ns e) : e.objects = [] ∧ e.hosts = [] := by
  induction passes with
  | done finished => exact work_of_take?_eq_none finished
  | turn _ _ ih => exact ih

/-- What is scanned in the end was scanned at the start or on the way. -/
theorem isScanned_iff (passes : Passes h s ns e) (orderly : Orderly h s) {m : Node}
    (present : h.IsPresent m) : e.IsScanned m ↔ s.IsScanned m ∨ m ∈ ns := by
  induction passes with
  | done => simp
  | turn taken rest ih =>
    rw [ih (orderly.turn taken), isScanned_turn orderly taken present, List.mem_append,
      Option.mem_toList, or_assoc]

theorem isPresent_of_mem (passes : Passes h s ns e) (orderly : Orderly h s) {m : Node}
    (mem : m ∈ ns) : h.IsPresent m ∧ ¬s.IsScanned m := by
  induction passes with
  | done => cases mem
  | turn taken rest ih =>
    obtain first | later := List.mem_append.mp mem
    · rw [Option.mem_toList] at first
      cases first
      obtain ⟨present, -, fresh⟩ := (taken_of_take? taken).fresh orderly
      exact ⟨present, fresh⟩
    · obtain ⟨present, fresh⟩ := ih (orderly.turn taken) later
      exact ⟨present, fun scanned =>
        fresh ((isScanned_turn orderly taken present).mpr (Or.inl scanned))⟩

/-- **The loop goes through no node twice.** -/
theorem nodup (passes : Passes h s ns e) (orderly : Orderly h s) : ns.Nodup := by
  induction passes with
  | done => exact List.nodup_nil
  | @turn s s' e n ns taken rest ih =>
    have later := ih (orderly.turn taken)
    cases n with
    | none => exact later
    | some m =>
      refine List.nodup_cons.mpr ⟨fun again => ?_, later⟩
      obtain ⟨present, fresh⟩ := rest.isPresent_of_mem (orderly.turn taken) again
      exact fresh ((isScanned_turn orderly taken present).mpr (Or.inr rfl))

end Passes

/-! ### The invariant of the loop -/

/-- The invariant of the mark loop. -/
structure Progress (h : Heap) (starts : List Node) (s : Marking) : Prop where
  orderly : Orderly h s
  /-- What is covered is reached. -/
  covers_reached : ∀ m, h.IsPresent m → s.Covers m → ReachedFrom h starts m
  /-- No start node is forgotten. -/
  starts_covered : ∀ m ∈ starts, h.IsPresent m → s.Covers m
  /-- No successor of a node that is scanned is forgotten. -/
  next_covered : ∀ n m, h.IsPresent n → s.IsScanned n → h.Refers n m → h.IsPresent m →
    s.Covers m

theorem orderly_idle (size : h.marks.size = h.slots.size) : Orderly h ⟨h.marks, [], [], []⟩ :=
  ⟨size, nofun, List.nodup_nil⟩

theorem not_isScanned_start (size : h.marks.size = h.slots.size)
    (clear : ∀ i : Nat, h.marks[i]? ≠ some true) (starts : List Node) (m : Node) :
    ¬(h.markingStart starts).IsScanned m := by
  rw [markingStart, isScanned_meetAll (orderly_idle size)]
  cases m <;> simp [IsScanned, clear]

/-- The state in which marking starts keeps the invariant, if it has no mark. -/
theorem progress_start (size : h.marks.size = h.slots.size)
    (clear : ∀ i : Nat, h.marks[i]? ≠ some true) (starts : List Node) :
    Progress h starts (h.markingStart starts) := by
  have orderly := orderly_idle size
  have covers : ∀ m, h.IsPresent m → ((h.markingStart starts).Covers m ↔ m ∈ starts) := by
    intro m present
    rw [markingStart, covers_meetAll orderly starts present]
    cases m <;> simp [Covers, clear]
  refine ⟨orderly.meetAll starts, ?_, ?_, ?_⟩
  · exact fun m present covered => .start ((covers m present).mp covered) present
  · exact fun m mem present => (covers m present).mpr mem
  · exact fun n m _ scanned => absurd scanned (not_isScanned_start size clear starts n)

/-- **One turn keeps the invariant.** -/
theorem Progress.turn {n : Option Node} (prog : Progress h starts s)
    (taken : s.take? h = some (n, s')) : Progress h starts (n.elim s' (s'.scan h)) := by
  have covers := fun m present => covers_turn (m := m) prog.orderly taken present
  refine ⟨prog.orderly.turn taken, ?_, ?_, ?_⟩
  · intro m present covered
    obtain old | ⟨a, rfl, refers⟩ := (covers m present).mp covered
    · exact prog.covers_reached m present old
    · obtain ⟨presenta, covereda, -⟩ := (taken_of_take? taken).fresh prog.orderly
      exact .next (prog.covers_reached a presenta covereda) refers present
  · exact fun m mem present => (covers m present).mpr (Or.inl (prog.starts_covered m mem present))
  · intro a m presenta scanned refers present
    obtain old | now := (isScanned_turn prog.orderly taken presenta).mp scanned
    · exact (covers m present).mpr (Or.inl (prog.next_covered a m presenta old refers present))
    · exact (covers m present).mpr (Or.inr ⟨a, now, refers⟩)

theorem Progress.passes {e : Marking} (prog : Progress h starts s) (passes : Passes h s ns e) :
    Progress h starts e := by
  induction passes with
  | done => exact prog
  | turn taken _ ih => exact ih (prog.turn taken)

/-! ### The end -/

/-- When no work is left, what is done is what is covered, and it is scanned. -/
theorem isDone_iff_of_work_eq_nil (objects : s.objects = []) (hosts : s.hosts = []) (m : Node) :
    (s.IsDone m ↔ s.Covers m) ∧ (s.IsDone m ↔ s.IsScanned m) := by
  cases m <;> simp [IsDone, Covers, IsScanned, objects, hosts]

/-- **The marker is sound and complete**: started without marks, it ends with
exactly the nodes done that are reached from the roots. -/
theorem isDone_run_iff (size : h.marks.size = h.slots.size)
    (clear : ∀ i : Nat, h.marks[i]? ≠ some true) {n : Node} (present : h.IsPresent n) :
    h.marked.IsDone n ↔ ReachedFrom h h.rootNodes n := by
  obtain ⟨ns, passes⟩ := passes_run h (h.markingStart h.rootNodes)
  have prog := (progress_start size clear h.rootNodes).passes passes
  obtain ⟨objects, hosts⟩ := passes.work_eq_nil
  have done := isDone_iff_of_work_eq_nil objects hosts
  constructor
  · exact fun isDone => prog.covers_reached n present ((done n).1.mp isDone)
  · intro reached
    refine (reached.mem_of_closed h.marked.IsDone ?_ ?_).1
    · exact fun m mem presentm => (done m).1.mpr (prog.starts_covered m mem presentm)
    · exact fun m k isDone presentm refers presentk =>
        (done k).1.mpr (prog.next_covered m k presentm ((done m).2.mp isDone) refers presentk)

/-- **The loop goes through each node that it is done with once, and stops when they are closed
under references.**  The nodes to start with are among them, if they are there.  The links of an
object and the edges that leave it are gone through together, and nowhere else. -/
theorem loop_visits_once (size : h.marks.size = h.slots.size)
    (clear : ∀ i : Nat, h.marks[i]? ≠ some true) (starts : List Node) :
    ∃ ns e, Passes h (h.markingStart starts) ns e ∧ e = run h (h.markingStart starts) ∧
      e.objects = [] ∧ e.hosts = [] ∧
      ns.Nodup ∧ (∀ n, n ∈ ns ↔ h.IsPresent n ∧ e.IsDone n) ∧
      (∀ n ∈ starts, h.IsPresent n → e.IsDone n) ∧
      ∀ n m, h.IsPresent n → e.IsDone n → h.Refers n m → h.IsPresent m → e.IsDone m := by
  obtain ⟨ns, passes⟩ := passes_run h (h.markingStart starts)
  have start := progress_start size clear starts
  have prog := start.passes passes
  obtain ⟨objects, hosts⟩ := passes.work_eq_nil
  have done := isDone_iff_of_work_eq_nil objects hosts
  refine ⟨ns, _, passes, rfl, objects, hosts, passes.nodup start.orderly, fun n => ?_,
    fun n mem present => (done n).1.mpr (prog.starts_covered n mem present), ?_⟩
  · constructor
    · intro mem
      have present := (passes.isPresent_of_mem start.orderly mem).1
      exact ⟨present, (done n).2.mpr
        ((passes.isScanned_iff start.orderly present).mpr (Or.inr mem))⟩
    · rintro ⟨present, isDone⟩
      obtain early | mem := (passes.isScanned_iff start.orderly present).mp ((done n).2.mp isDone)
      · exact absurd early (not_isScanned_start size clear starts n)
      · exact mem
  · exact fun n m present isDone refers presentm =>
      (done m).1.mpr (prog.next_covered n m present ((done n).2.mp isDone) refers presentm)

/-- A heap with a ring: an object links to another, from which an edge leads to a host node, and
from there an edge leads back. -/
def ringHeap : Heap :=
  { Heap.new ⟨0⟩ .standard .synchronous with
    slots := #[⟨0, some (.ordinary none), 120⟩, ⟨0, some (.ordinary (some ⟨⟨0⟩, 0, 0⟩)), 120⟩,
      ⟨0, some (.ordinary (some ⟨⟨0⟩, 3, 0⟩)), 120⟩, ⟨0, some (.ordinary none), 120⟩]
    marks := Array.replicate 4 false
    edges := ((∅ : EdgeTable).add (.object ⟨⟨0⟩, 3, 0⟩) (.host ⟨7⟩)).add
      (.host ⟨7⟩) (.object ⟨⟨0⟩, 2, 0⟩) }

/-- Nodes to start with: an object of the ring twice, a stale handle and a foreign one. -/
def ringStarts : List Node :=
  [.object ⟨⟨0⟩, 2, 0⟩, .object ⟨⟨0⟩, 2, 0⟩, .object ⟨⟨0⟩, 2, 5⟩, .object ⟨⟨1⟩, 3, 0⟩]

theorem loop_visits_once_ring :
    ringHeap.marks.size = ringHeap.slots.size ∧
      (∀ i : Nat, ringHeap.marks[i]? ≠ some true) ∧
      ∃ ns e, Passes ringHeap (ringHeap.markingStart ringStarts) ns e ∧
        e = run ringHeap (ringHeap.markingStart ringStarts) ∧ e.objects = [] ∧ e.hosts = [] ∧
        ns.Nodup ∧ (∀ n, n ∈ ns ↔ ringHeap.IsPresent n ∧ e.IsDone n) ∧
        (∀ n ∈ ringStarts, ringHeap.IsPresent n → e.IsDone n) ∧
        ∀ n m, ringHeap.IsPresent n → e.IsDone n → ringHeap.Refers n m →
          ringHeap.IsPresent m → e.IsDone m := by
  have clear : ∀ i : Nat, ringHeap.marks[i]? ≠ some true := by
    intro i
    rw [ringHeap, Array.getElem?_replicate]
    split <;> simp
  exact ⟨rfl, clear, loop_visits_once rfl clear ringStarts⟩

end Marking

end HostObjects
