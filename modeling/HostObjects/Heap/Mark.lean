import HostObjects.Heap.Basic

/-!
# Marking

The collector marks what is reachable. It keeps two lists of work, one of objects and one of host
nodes, and takes an object before it takes a host node. Going through a node, it meets the objects
the node links to and the targets of the external edges that leave it. An object that is met is put
on the list unless it has its mark, so one object may be on the list several times; a host node is
put on the list the first time it is met. Handles that are stale, or belong to another heap, are
passed over.

The loop ends because every turn uses up a part of `Marking.potential`. A turn that goes through a
node uses up an object without a mark, or a host node that is on the list or still ahead behind an
edge: the loop meets a host node only where an edge leads to it. For that it may add to the list of
objects, by fewer than all the links and edges of the heap (`Heap.span`).
-/

namespace HostObjects

namespace Heap

/-- The nodes that an object links to; host nodes have edges only. -/
def linksOf (h : Heap) : Node → List Node
  | .object o =>
    match h.object o with
    | .ok obj => obj.links.map .object
    | .error _ => []
  | .host _ => []

/-- The ends of all links and of all edges. -/
def allRefs (h : Heap) : List Node :=
  (h.slots.toList.flatMap fun s => (s.occupant.map fun o => o.links.map .object).getD []) ++
    h.edges.rows.entries.flatMap fun r => r.2.keys

/-- More than a node refers to. -/
def span (h : Heap) : Nat := h.allRefs.length + 1

theorem links_sublist (h : Heap) (n : Node) : (h.linksOf n).Sublist
    (h.slots.toList.flatMap fun s => (s.occupant.map fun o => o.links.map .object).getD []) := by
  cases n with
  | host k => exact List.nil_sublist _
  | object o =>
    simp only [linksOf]
    split
    · next obj found =>
      obtain ⟨s, mem, lies⟩ : ∃ s ∈ h.slots.toList, s.occupant = some obj := by
        simp only [object, occupant?] at found
        grind
      refine List.flatMap_def ▸ List.sublist_flatten_of_mem (List.mem_map.mpr ⟨s, mem, ?_⟩)
      rw [lies, Option.map_some, Option.getD_some]
    · exact List.nil_sublist _

theorem targets_sublist (h : Heap) (n : Node) :
    (h.edges.targets n).Sublist (h.edges.rows.entries.flatMap fun r => r.2.keys) := by
  rw [EdgeTable.targets]
  cases found : h.edges.rows.get? n with
  | none => exact List.nil_sublist _
  | some row =>
    exact List.flatMap_def ▸ List.sublist_flatten_of_mem
      (List.mem_map.mpr ⟨(n, row), Assoc.get?_eq_some_iff.mp found, rfl⟩)

theorem length_refs_lt_span (h : Heap) (n : Node) :
    (h.linksOf n ++ h.edges.targets n).length < h.span :=
  Nat.lt_succ_of_le ((h.links_sublist n).append (h.targets_sublist n)).length_le

end Heap

/-- The state of the marker. -/
structure Marking where
  /-- The marks, one a slot. -/
  marks : Array Bool
  /-- The host nodes met. -/
  seen : List HostNode
  /-- The objects still to visit; the first is taken next. -/
  objects : List Handle
  /-- The host nodes still to visit; the first is taken next. -/
  hosts : List HostNode

namespace Marking

/-- Whether a handle names an object that has no mark. -/
def isUnmarked (h : Heap) (marks : Array Bool) (o : Handle) : Bool :=
  h.isValid o && marks[o.index]? == some false

/-- Meets a node: what is new about it goes on the work. -/
def meet (h : Heap) (s : Marking) : Node → Marking
  | .object o => if isUnmarked h s.marks o then { s with objects := o :: s.objects } else s
  | .host k => if k ∈ s.seen then s else { s with seen := k :: s.seen, hosts := k :: s.hosts }

/-- Meets some nodes in turn. -/
def meetAll (h : Heap) (s : Marking) (ns : List Node) : Marking := ns.foldl (meet h) s

/-- Goes through the links of a node and then through the edges that leave it. -/
def scan (h : Heap) (s : Marking) (n : Node) : Marking :=
  s.meetAll h (h.linksOf n ++ h.edges.targets n)

/-- Takes a node off the work, with a mark if it is an object: the node to go through, and what is
left. An object that has its mark by now is dropped. -/
def take? (h : Heap) (s : Marking) : Option (Option Node × Marking) :=
  match s with
  | ⟨marks, seen, o :: objects, hosts⟩ =>
    if isUnmarked h marks o then
      some (some (.object o), ⟨marks.setIfInBounds o.index true, seen, objects, hosts⟩)
    else some (none, ⟨marks, seen, objects, hosts⟩)
  | ⟨marks, seen, [], k :: hosts⟩ => some (some (.host k), ⟨marks, seen, [], hosts⟩)
  | ⟨_, _, [], []⟩ => none

/-! ### The end of the loop -/

/-- Whether a node is a host node that is not met. -/
def isAhead (seen : List HostNode) : Node → Bool
  | .object _ => false
  | .host k => k ∉ seen

/-- The objects without a mark. -/
def unmarked (s : Marking) : Nat := s.marks.count false

/-- The host nodes on the work, and the edges to those not met. -/
def hostsAhead (h : Heap) (s : Marking) : Nat :=
  s.hosts.length + h.edges.toList.countP fun e => isAhead s.seen e.2

theorem isUnmarked_iff {h : Heap} {marks : Array Bool} {o : Handle} :
    isUnmarked h marks o = true ↔ h.isValid o = true ∧ marks[o.index]? = some false := by
  simp [isUnmarked]

@[simp] theorem marks_meet (h : Heap) (s : Marking) (n : Node) :
    (s.meet h n).marks = s.marks := by
  cases n <;> simp only [meet] <;> split <;> rfl

@[simp] theorem marks_meetAll (h : Heap) (s : Marking) (ns : List Node) :
    (s.meetAll h ns).marks = s.marks := by
  induction ns generalizing s with
  | nil => rfl
  | cons n ns ih => exact (ih (s.meet h n)).trans (marks_meet h s n)

@[simp] theorem marks_scan (h : Heap) (s : Marking) (n : Node) :
    (s.scan h n).marks = s.marks := marks_meetAll h s _

/-- A host node that is met for the first time is ahead no more. -/
theorem countP_isAhead_lt {seen : List HostNode} {k : HostNode} {es : List (Node × Node)}
    (fresh : k ∉ seen) {n : Node} (edge : (n, .host k) ∈ es) :
    es.countP (fun e => isAhead (k :: seen) e.2) < es.countP fun e => isAhead seen e.2 := by
  have less : ∀ e : Node × Node, isAhead (k :: seen) e.2 = true → isAhead seen e.2 = true := by
    rintro ⟨a, b⟩ ahead
    cases b with
    | object o => exact ahead
    | host l =>
      simp only [isAhead, List.mem_cons, decide_eq_true_eq, not_or] at *
      exact ahead.2
  obtain ⟨before, after, rfl⟩ := List.append_of_mem edge
  have gone : isAhead (k :: seen) (.host k) = false := by simp [isAhead]
  have there : isAhead seen (.host k) = true := by simp [isAhead, fresh]
  have first := List.countP_mono_left (l := before) fun e _ => less e
  have last := List.countP_mono_left (l := after) fun e _ => less e
  simp only [List.countP_append, List.countP_cons, gone, there] at *
  simp only [Bool.false_eq_true, if_false, if_true]
  omega

/-- A node at which the loop may arrive: host nodes are at the end of an edge. -/
def IsEnd (h : Heap) : Node → Prop
  | .object _ => True
  | .host k => ∃ n, (n, .host k) ∈ h.edges

theorem isEnd_of_mem_refs {h : Heap} {n m : Node} (mem : m ∈ h.linksOf n ++ h.edges.targets n) :
    IsEnd h m := by
  cases m with
  | object o => trivial
  | host k =>
    obtain link | edge := List.mem_append.mp mem
    · cases n with
      | host l => cases link
      | object o =>
        simp only [Heap.linksOf] at link
        split at link <;> simp at link
    · exact ⟨n, EdgeTable.mem_targets_iff.mp edge⟩

/-- Meeting the end of an edge adds nothing to the host nodes ahead. -/
theorem hostsAhead_meet_le {h : Heap} {m : Node} (isEnd : IsEnd h m) (s : Marking) :
    (s.meet h m).hostsAhead h ≤ s.hostsAhead h := by
  cases m with
  | object o =>
    simp only [meet]
    split <;> exact Nat.le_refl _
  | host k =>
    obtain ⟨n, edge⟩ := isEnd
    simp only [meet]
    split
    · exact Nat.le_refl _
    · next fresh =>
      have less := countP_isAhead_lt fresh edge
      simp only [hostsAhead, List.length_cons]
      omega

theorem hostsAhead_meetAll_le {h : Heap} {ns : List Node} (ends : ∀ m ∈ ns, IsEnd h m)
    (s : Marking) : (s.meetAll h ns).hostsAhead h ≤ s.hostsAhead h := by
  induction ns generalizing s with
  | nil => exact Nat.le_refl _
  | cons m ns ih =>
    obtain ⟨isEnd, ends⟩ := List.forall_mem_cons.mp ends
    exact Nat.le_trans (ih ends (s.meet h m)) (hostsAhead_meet_le isEnd s)

theorem hostsAhead_scan_le (h : Heap) (s : Marking) (n : Node) :
    (s.scan h n).hostsAhead h ≤ s.hostsAhead h :=
  hostsAhead_meetAll_le (fun _ mem => isEnd_of_mem_refs mem) s

/-- Setting a mark that was not set leaves one object less without a mark. -/
theorem count_setIfInBounds_lt {marks : Array Bool} {i : Nat} (clear : marks[i]? = some false) :
    (marks.setIfInBounds i true).count false < marks.count false := by
  obtain ⟨bound, clear⟩ := Array.getElem?_eq_some_iff.mp clear
  have pos : 0 < marks.count false := Array.count_pos_iff.mpr (clear ▸ Array.getElem_mem bound)
  rw [Array.setIfInBounds, dif_pos bound, Array.count_set, clear, if_pos (beq_self_eq_true false),
    if_neg (by decide)]
  omega

theorem length_objects_meetAll_le (h : Heap) (s : Marking) (ns : List Node) :
    (s.meetAll h ns).objects.length ≤ s.objects.length + ns.length := by
  induction ns generalizing s with
  | nil => exact Nat.le_refl _
  | cons n ns ih =>
    have one : (s.meet h n).objects.length ≤ s.objects.length + 1 := by
      cases n <;> simp only [meet] <;> split <;> simp
    have rest := ih (s.meet h n)
    rw [List.length_cons]
    exact Nat.le_trans rest (by omega)

/-- A bound on the turns the marker still takes. -/
def potential (h : Heap) (s : Marking) : Nat :=
  (s.unmarked + s.hostsAhead h) * h.span + s.objects.length

/-- Going through a node adds less to the objects than it uses up of the rest. -/
theorem potential_scan_lt {h : Heap} {s s' : Marking} {n : Node}
    (ahead : (s'.scan h n).unmarked + (s'.scan h n).hostsAhead h < s.unmarked + s.hostsAhead h)
    (objects : s'.objects.length ≤ s.objects.length) :
    (s'.scan h n).potential h < s.potential h := by
  have added : (s'.scan h n).objects.length < s.objects.length + h.span :=
    Nat.lt_of_le_of_lt (length_objects_meetAll_le h s' _)
      (Nat.add_lt_add_of_le_of_lt objects (h.length_refs_lt_span n))
  have used := Nat.mul_le_mul_right h.span (Nat.succ_le_of_lt ahead)
  rw [Nat.succ_mul] at used
  simp only [potential]
  omega

theorem potential_lt {h : Heap} {s s' : Marking} {n : Option Node}
    (taken : s.take? h = some (n, s')) :
    (n.elim s' (s'.scan h)).potential h < s.potential h := by
  unfold take? at taken
  split at taken
  · next marks seen o objects hosts =>
    split at taken
    · next fresh =>
      cases taken
      refine potential_scan_lt (Nat.add_lt_add_of_lt_of_le ?_ ?_) (Nat.le_succ _)
      · rw [unmarked, marks_scan]
        exact count_setIfInBounds_lt (isUnmarked_iff.mp fresh).2
      · exact hostsAhead_scan_le h _ _
    · cases taken
      exact Nat.lt_succ_self _
  · next marks seen k hosts =>
    cases taken
    refine potential_scan_lt (Nat.add_lt_add_of_le_of_lt ?_ ?_) (Nat.le_refl _)
    · rw [unmarked, marks_scan]
      exact Nat.le_refl _
    · refine Nat.lt_of_le_of_lt (hostsAhead_scan_le h _ _) ?_
      simp only [hostsAhead, List.length_cons]
      omega
  · cases taken

/-- Visits the nodes of the work until none is left. -/
def run (h : Heap) (s : Marking) : Marking :=
  match _taken : s.take? h with
  | none => s
  | some (n, s') => run h (n.elim s' (s'.scan h))
termination_by s.potential h
decreasing_by exact potential_lt _taken

end Marking

namespace Heap

/-- The objects among the persistent roots. -/
def rootObjects (h : Heap) : List Handle :=
  h.roots.toList.filterMap fun v => v.bind Value.object?

/-- The nodes that are alive by themselves, in the six kinds. -/
def rootNodes (h : Heap) : List Node :=
  (h.stack.toList.filterMap Value.object?).map .object ++
  h.rootObjects.map .object ++
  h.pins.keys.map .object ++
  [.object h.objectPrototype, .object h.functionPrototype] ++
  h.classPrototypes.map (fun p => .object p.2) ++
  h.hostRoots.keys.map .host

/-- The state in which marking starts: some nodes are met. -/
def markingStart (h : Heap) (starts : List Node) : Marking :=
  (Marking.mk h.marks [] [] []).meetAll h starts

/-- The state in which marking from the roots ends. -/
def marked (h : Heap) : Marking := Marking.run h (h.markingStart h.rootNodes)

end Heap

end HostObjects
