import HostObjects.Proofs.Heap.Census
import Mathlib.Data.Set.Card

/-!
# Pins and external edges, counted

Pins and external edges are counted, and a count says what happened before: how often
a thing was added with success, less how often it was taken back with effect
(`counts_balanced`).  Only a collection does anything else, and only to edges: those with
an end that dies disappear, however often they were added.

What makes this true is that pins and edges name objects of the heap only (`Booked`).
So a collection cannot meet an edge whose end died before, and what it drops are exactly
the edges with an end among the dead (`edgeCount_collect`).  That the tables have no entry
with a count of zero, and no row without an entry, is part of what they are; so a thing
has a count exactly if the table knows it.
-/

namespace HostObjects.Heap

variable {h h' : Heap} {held : ClassId → Bool} {o : Handle} {a b n : Node} {e : Node × Node}

/-! ### What is counted -/

/-- The command pins the object, with success. -/
def Command.pins (o : Handle) (h : Heap) : Command → Bool
  | pin (.object p) => p = o && (Heap.pin (.object p) h).1.isOk
  | _ => false

/-- The command takes a pin off the object, which has one. -/
def Command.unpins (o : Handle) (h : Heap) : Command → Bool
  | unpin (.object p) => p = o && 0 < h.pinCount p
  | _ => false

/-- The command registers the edge, with success. -/
def Command.adds (a b : Node) (h : Heap) : Command → Bool
  | addEdge owner target => (owner, target) = (a, b) && (Heap.addEdge owner target h).1.isOk
  | _ => false

/-- The command removes a registration of the edge, and says so. -/
def Command.removes (a b : Node) (h : Heap) : Command → Bool
  | removeEdge owner target => (owner, target) = (a, b) && (h.removeEdge owner target).1
  | _ => false

/-- How many commands of a run pass a test in the heap that they run on. -/
def tally (test : Heap → Command → Bool) (h : Heap) : List Turn → Nat
  | [] => 0
  | t :: ts => (test h t.command).toNat + tally test (t.run h) ts

/-- The objects that died on the way from one heap to another, and still wait for their
finalizers. -/
def deaths (h h' : Heap) : List Reaped := h'.reaped.drop h.reaped.length

/-- The node is an object among the dead. -/
def isAmong (dead : List Reaped) (n : Node) : Bool :=
  dead.any fun r => n = .object r.handle

/-- An end of the edge is among the dead. -/
def losesEnd (dead : List Reaped) (e : Node × Node) : Bool :=
  isAmong dead e.1 || isAmong dead e.2

/-- No turn of a run collects an end of the edge. -/
def Untouched (e : Node × Node) (h : Heap) : List Turn → Prop
  | [] => True
  | t :: ts => losesEnd (deaths h (t.run h)) e = false ∧ Untouched e (t.run h) ts

/-! ### Pins and edges name objects of the heap -/

/-- Whatever is pinned or at the end of an edge is there. -/
structure Booked (h : Heap) : Prop where
  intact : Intact h
  pinned : ∀ o ∈ h.pins, h.isValid o = true
  ends : ∀ e ∈ h.edges, h.IsPresent e.1 ∧ h.IsPresent e.2

/-- The heap has the pins of a former one, and its edges but for those with an end among
the objects that died since. -/
structure Carried (start : Heap) (dead : List Reaped) (h : Heap) : Prop where
  booked : Booked h
  reaped : h.reaped = start.reaped ++ dead
  pins : h.pins = start.pins
  edgeCount : ∀ a b, h.edgeCount a b = if losesEnd dead (a, b) then 0 else start.edgeCount a b

theorem IsPresent.mono (present : h.IsPresent n)
    (isValid : ∀ o, n = .object o → h.isValid o = true → h'.isValid o = true) :
    h'.IsPresent n := by
  cases n with
  | object o => exact isValid o rfl present
  | host k => trivial

theorem Booked.mono (booked : Booked h) (intact : Intact h') (pins : ∀ o ∈ h'.pins, o ∈ h.pins)
    (edges : ∀ e ∈ h'.edges, e ∈ h.edges)
    (isValid : ∀ o, h.isValid o = true → h'.isValid o = true) : Booked h' where
  intact := intact
  pinned o mem := isValid o (booked.pinned o (pins o mem))
  ends e mem := by
    obtain ⟨first, second⟩ := booked.ends e (edges e mem)
    exact ⟨first.mono fun o _ => isValid o, second.mono fun o _ => isValid o⟩

theorem Booked.congr (booked : Booked h) (intact : Intact h') (pins : h'.pins = h.pins)
    (edges : h'.edges = h.edges)
    (isValid : ∀ o, h.isValid o = true → h'.isValid o = true) : Booked h' :=
  booked.mono intact (fun _ mem => pins ▸ mem) (fun _ mem => edges ▸ mem) isValid

theorem edgeCount_congr (edges : h'.edges = h.edges) : h'.edgeCount = h.edgeCount := by
  funext a b
  rw [edgeCount, edgeCount, edges]

/-! ### Collections -/

/-- The objects that die in a collection are those that were there and are not
afterwards. -/
theorem isValid_collect_iff_not_dead (held : ClassId → Bool) (valid : h.isValid o = true) :
    (h.collect held).isValid o = true ↔ ∀ r ∈ h.deadIn held, r.handle ≠ o := by
  constructor
  · rintro after r mem rfl
    rw [(of_mem_deadIn mem).2] at after
    cases after
  · intro spared
    obtain ⟨obj, found⟩ := isValid_iff.mp valid
    obtain ⟨own, s, slot, generation, occupied⟩ := object_eq_ok_iff.mp found
    have here : h.reap? o.index = some ⟨o, obj⟩ := by
      unfold reap?
      rw [slot, Option.bind_some, occupied, Option.map_some, ← own, generation]
    have there : (⟨o, obj⟩ : Reaped) ∈ h.remains :=
      List.mem_filterMap.mpr
        ⟨o.index, List.mem_range.mpr (Array.getElem?_eq_some_iff.mp slot).1, here⟩
    rcases List.mem_append.mp ((remains_collect held h).mem_iff.mp there) with dead | kept
    · exact absurd rfl (spared _ dead)
    · exact isValid_of_object (object_of_mem_remains kept)

/-- What a collection keeps is what is not among its dead. -/
theorem keepsNode_collect (held : ClassId → Bool) (present : h.IsPresent n) :
    (h.collect held).keepsNode n = !isAmong (h.deadIn held) n := by
  cases n with
  | host k => simp [keepsNode, isAmong]
  | object o =>
      have valid : h.isValid o = true := present
      have own : o.heap = (h.collect held).id := (isValid_iff_slot.mp valid).1
      have spared := isValid_collect_iff_not_dead held valid
      rw [Bool.eq_iff_iff, Bool.not_eq_true', ← Bool.not_eq_true]
      simp only [keepsNode, own, ne_eq, not_true, decide_false, Bool.false_or, spared,
        isAmong, List.any_eq_true, decide_eq_true_eq, Node.object.injEq, not_exists,
        not_and]
      exact forall₂_congr fun r _ => not_congr eq_comm

theorem edgeCount_eq_zero_iff : h.edgeCount a b = 0 ↔ (a, b) ∉ h.edges := by
  rw [EdgeTable.mem_iff, Nat.pos_iff_ne_zero, not_not]
  rfl

/-- **A collection drops the edges with an end among its dead.** -/
theorem edgeCount_collect (booked : Booked h) (held : ClassId → Bool) (a b : Node) :
    (h.collect held).edgeCount a b =
      if losesEnd (h.deadIn held) (a, b) then 0 else h.edgeCount a b := by
  have counts : (h.collect held).edgeCount a b =
      if (h.collect held).keepsNode a && (h.collect held).keepsNode b then h.edgeCount a b
      else 0 := EdgeTable.count_retain _ h.edges a b
  by_cases mem : (a, b) ∈ h.edges
  · obtain ⟨first, second⟩ := booked.ends (a, b) mem
    rw [counts, keepsNode_collect held first, keepsNode_collect held second, losesEnd]
    cases isAmong (h.deadIn held) a <;> cases isAmong (h.deadIn held) b <;> rfl
  · rw [counts, edgeCount_eq_zero_iff.mpr mem, ite_self, ite_self]

theorem Booked.collect (booked : Booked h) (held : ClassId → Bool) :
    Booked (h.collect held) where
  intact := booked.intact.collect held
  pinned o mem := by
    have before := booked.pinned o mem
    exact (isValid_collect_iff booked.intact).mpr ⟨before, .pin mem before⟩
  ends e mem := by
    have survives : ∀ n, isAmong (h.deadIn held) n = false → h.IsPresent n →
        (h.collect held).IsPresent n := by
      rintro (o | k) spared present
      · refine (isValid_collect_iff_not_dead held present).mpr fun r dead eq => ?_
        subst eq
        exact absurd spared (by simpa [isAmong] using ⟨r, dead, rfl⟩)
      · trivial
    have left := EdgeTable.mem_iff.mp mem
    change 0 < (h.collect held).edgeCount e.1 e.2 at left
    rw [edgeCount_collect booked] at left
    split at left
    · exact absurd left (Nat.lt_irrefl 0)
    · next spared =>
      rw [losesEnd, Bool.or_eq_true, not_or, Bool.not_eq_true, Bool.not_eq_true] at spared
      obtain ⟨first, second⟩ := booked.ends e (EdgeTable.mem_iff.mpr left)
      exact ⟨survives e.1 spared.1 first, survives e.2 spared.2 second⟩

theorem losesEnd_append (dead dead' : List Reaped) (e : Node × Node) :
    losesEnd (dead ++ dead') e = (losesEnd dead e || losesEnd dead' e) := by
  unfold losesEnd isAmong
  rw [List.any_append, List.any_append]
  generalize List.any dead _ = x, List.any dead _ = y
  cases x <;> cases y <;> simp

theorem Carried.collect {start : Heap} {dead : List Reaped} (carried : Carried start dead h)
    (held : ClassId → Bool) :
    Carried start (dead ++ h.deadIn held) (h.collect held) where
  booked := carried.booked.collect held
  reaped := by rw [reaped_collect, carried.reaped, List.append_assoc]
  pins := carried.pins
  edgeCount a b := by
    rw [edgeCount_collect carried.booked, carried.edgeCount, losesEnd_append]
    cases losesEnd dead (a, b) <;> cases losesEnd (h.deadIn held) (a, b) <;> rfl

theorem tracked_carried (start : Heap) : Tracked fun h => ∃ dead, Carried start dead h where
  collect held h := fun ⟨dead, carried⟩ => ⟨_, carried.collect held⟩
  place obj h := by
    rintro ⟨dead, booked, reaped, pins, edgeCount⟩
    have same := place_sameLedger h obj
    refine ⟨dead, booked.congr (stable_intact.place obj h booked.intact) same.pins same.edges
      fun o valid => ?_, (place_reaped h obj).trans reaped, same.pins.trans pins, ?_⟩
    · rw [isValid_place booked.intact.freeIsEmpty, valid, Bool.or_true]
    · rwa [edgeCount_congr same.edges]
  store o obj new h found := by
    rintro ⟨dead, booked, reaped, pins, edgeCount⟩
    refine ⟨dead, booked.congr (stable_intact.store o obj new h found booked.intact) rfl rfl
      fun p valid => ?_, reaped, pins, edgeCount⟩
    rwa [isValid_store found]
  beside h h' same ledger kept := by
    rintro ⟨dead, booked, reaped, pins, edgeCount⟩
    refine ⟨dead, booked.congr (booked.intact.congr same) ledger.pins ledger.edges
      fun o valid => ?_, kept.trans reaped, ledger.pins.trans pins, ?_⟩
    · rwa [same.isValid]
    · rwa [edgeCount_congr ledger.edges]

/-! ### Commands that count nothing -/

/-- The command changes a count itself. -/
def Command.counts : Command → Bool
  | pin _ | unpin _ | addEdge _ _ | removeEdge _ _ => true
  | _ => false

/-- A later heap has the same pins, and the same edges but for those whose end died. -/
structure Pruned (h h' : Heap) : Prop where
  booked : Booked h'
  pins : h'.pins = h.pins
  edgeCount : ∀ a b,
    h'.edgeCount a b = if losesEnd (deaths h h') (a, b) then 0 else h.edgeCount a b

theorem deaths_eq_nil (same : h'.reaped = h.reaped) : deaths h h' = [] := by
  rw [deaths, same, List.drop_length]

theorem Carried.pruned {dead : List Reaped} (carried : Carried h dead h') : Pruned h h' := by
  obtain ⟨booked, reaped, pins, edgeCount⟩ := carried
  refine ⟨booked, pins, ?_⟩
  rw [deaths, reaped, List.drop_left]
  exact edgeCount

/-- **The other commands drop no pin, and edges only with an end that dies.** -/
theorem pruned_run (booked : Booked h) (held : ClassId → Bool) {c : Command}
    (other : c.counts = false) : Pruned h (c.run held h) := by
  cases books : c.books with
  | false =>
      have start : Carried h [] h :=
        ⟨booked, (List.append_nil _).symm, rfl, fun _ _ => rfl⟩
      obtain ⟨dead, carried⟩ := (tracked_carried h).run held books ⟨[], start⟩
      exact carried.pruned
  | true =>
      have same : ∀ h', SameTable h h' → h'.pins = h.pins → h'.edges = h.edges →
          deaths h h' = [] → Pruned h h' := by
        intro h' table pins edges none
        refine ⟨booked.congr (booked.intact.congr table) pins edges fun o valid => ?_, pins,
          fun a b => ?_⟩
        · rwa [table.isValid]
        · rw [edgeCount_congr edges, none]
          rfl
      cases c with
      | settle => exact same _ ⟨rfl, rfl, rfl, rfl, rfl⟩ rfl rfl List.drop_nil
      | addRoot v =>
          simp only [Command.run, Heap.addRoot]
          split <;> exact same _ ⟨rfl, rfl, rfl, rfl, rfl⟩ rfl rfl (deaths_eq_nil rfl)
      | setRoot r v =>
          simp only [Command.run, Heap.setRoot]
          split <;> exact same _ ⟨rfl, rfl, rfl, rfl, rfl⟩ rfl rfl (deaths_eq_nil rfl)
      | removeRoot r =>
          simp only [Command.run, Heap.removeRoot]
          split <;> exact same _ ⟨rfl, rfl, rfl, rfl, rfl⟩ rfl rfl (deaths_eq_nil rfl)
      | pin | unpin | addEdge | removeEdge => cases other
      | _ => cases books

/-! ### What each command does to a count -/

theorem checkNode_eq_ok_iff : h.checkNode n = .ok () ↔ h.IsPresent n := by
  cases n with
  | object o => exact check_eq_ok_iff
  | host k => exact iff_of_true rfl trivial

/-- A removal says whether there was a registration. -/
theorem removeEdge_iff (h : Heap) (a b : Node) :
    (h.removeEdge a b).1 = true ↔ 0 < h.edgeCount a b :=
  (h.edges.remove_fst a b).trans EdgeTable.mem_iff

/-- The two outcomes of registering an edge. -/
theorem addEdge_cases (h : Heap) (a b : Node) :
    ((Heap.addEdge a b h).1.isOk = true ∧ h.IsPresent a ∧ h.IsPresent b ∧
        (Heap.addEdge a b h).2 = { h with edges := h.edges.add a b }) ∨
      ((Heap.addEdge a b h).1.isOk = false ∧ (Heap.addEdge a b h).2 = h) := by
  unfold Heap.addEdge
  cases first : h.checkNode a with
  | error e => exact Or.inr ⟨rfl, rfl⟩
  | ok _ =>
      cases second : h.checkNode b with
      | error e => exact Or.inr ⟨rfl, rfl⟩
      | ok _ =>
          exact Or.inl ⟨rfl, checkNode_eq_ok_iff.mp first, checkNode_eq_ok_iff.mp second, rfl⟩

/-- The two outcomes of pinning an object. -/
theorem pin_cases (h : Heap) (o : Handle) :
    ((Heap.pin (.object o) h).1.isOk = true ∧ h.isValid o = true ∧
        (Heap.pin (.object o) h).2 = { h with pins := h.pins.add o }) ∨
      ((Heap.pin (.object o) h).1.isOk = false ∧ (Heap.pin (.object o) h).2 = h) := by
  unfold Heap.pin
  dsimp only
  cases check : h.check o with
  | error e => exact Or.inr ⟨rfl, rfl⟩
  | ok _ => exact Or.inl ⟨rfl, check_eq_ok_iff.mp check, rfl⟩

/-- **Every command leaves pins and edges at objects of the heap only.** -/
theorem Booked.run (booked : Booked h) (held : ClassId → Bool) (c : Command) :
    Booked (c.run held h) := by
  cases counts : c.counts with
  | false => exact (pruned_run booked held counts).booked
  | true =>
      have intact := booked.intact.run held c
      cases c with
      | pin v =>
          cases v with
          | object o =>
              rcases pin_cases h o with ⟨-, valid, eq⟩ | ⟨-, eq⟩
              · rw [Command.run, eq] at intact ⊢
                refine ⟨intact, fun p mem => ?_, booked.ends⟩
                rcases Counted.mem_add.mp mem with rfl | mem
                · exact valid
                · exact booked.pinned p mem
              · rwa [Command.run, eq]
          | _ => exact booked
      | unpin v =>
          cases v with
          | object o =>
              exact booked.mono intact (fun _ mem => Counted.mem_of_mem_remove mem)
                (fun _ mem => mem) fun _ valid => valid
          | _ => exact booked
      | addEdge a b =>
          rcases addEdge_cases h a b with ⟨-, first, second, eq⟩ | ⟨-, eq⟩
          · rw [Command.run, eq] at intact ⊢
            refine ⟨intact, booked.pinned, fun e mem => ?_⟩
            rcases EdgeTable.mem_add.mp mem with rfl | mem
            · exact ⟨first, second⟩
            · exact booked.ends e mem
          · rwa [Command.run, eq]
      | removeEdge a b =>
          exact booked.mono intact (fun _ mem => mem)
            (fun _ mem => EdgeTable.mem_of_mem_remove mem) fun _ valid => valid
      | _ => cases counts

/-- **A command moves the count of an object** by what it pins and unpins. -/
theorem pinCount_run (booked : Booked h) (held : ClassId → Bool) (c : Command)
    (o : Handle) :
    (c.run held h).pinCount o + (c.unpins o h).toNat =
      h.pinCount o + (c.pins o h).toNat := by
  unfold pinCount
  cases counts : c.counts with
  | false =>
      have unpins : c.unpins o h = false := by
        cases c with
        | unpin => cases counts
        | _ => rfl
      have pins : c.pins o h = false := by
        cases c with
        | pin => cases counts
        | _ => rfl
      rw [(pruned_run booked held counts).pins, unpins, pins]
  | true =>
      cases c with
      | pin v =>
          cases v with
          | object p =>
              show (Heap.pin (.object p) h).2.pins.count o + 0 =
                h.pins.count o + (decide (p = o) && (Heap.pin (.object p) h).1.isOk).toNat
              rcases pin_cases h p with ⟨ok, -, eq⟩ | ⟨failed, eq⟩
              · rw [eq, ok, Bool.and_true]
                show (h.pins.add p).count o + 0 = _
                rw [Counted.count_add]
                by_cases same : p = o
                · simp [same]
                · simp [same, Ne.symm same]
              · rw [eq, failed, Bool.and_false]
                rfl
          | _ => rfl
      | unpin v =>
          cases v with
          | object p =>
              show (h.pins.remove p).2.count o +
                (decide (p = o) && decide (0 < h.pins.count p)).toNat = h.pins.count o + 0
              rw [Counted.count_remove]
              by_cases same : p = o
              · subst same
                by_cases some : 0 < h.pins.count p
                · simp only [some, if_true, decide_true, Bool.and_self, Bool.toNat_true]
                  omega
                · simp only [some, if_true, decide_false, Bool.and_false, Bool.toNat_false]
                  omega
              · simp [same, Ne.symm same]
          | _ => rfl
      | addEdge a b =>
          show (Heap.addEdge a b h).2.pins.count o + 0 = h.pins.count o + 0
          rcases addEdge_cases h a b with ⟨-, -, -, eq⟩ | ⟨-, eq⟩ <;> rw [eq]
      | removeEdge a b => rfl
      | _ => cases counts

/-- The commands that change a count take no object out of its slot. -/
theorem deaths_run_of_counts (held : ClassId → Bool) (h : Heap) {c : Command}
    (counts : c.counts = true) : deaths h (c.run held h) = [] := by
  refine deaths_eq_nil (c.run_beside held h ?_).2.1
  cases c with
  | pin | unpin | addEdge | removeEdge => rfl
  | _ => cases counts

/-- **A command moves the count of an edge** by what it adds and removes, as long as no
end of the edge dies; when one does, no registration is left. -/
theorem edgeCount_run (booked : Booked h) (held : ClassId → Bool) (c : Command)
    (a b : Node) :
    (losesEnd (deaths h (c.run held h)) (a, b) = false →
        (c.run held h).edgeCount a b + (c.removes a b h).toNat =
          h.edgeCount a b + (c.adds a b h).toNat) ∧
      (losesEnd (deaths h (c.run held h)) (a, b) = true →
        (c.run held h).edgeCount a b = 0) := by
  cases counts : c.counts with
  | false =>
      have removes : c.removes a b h = false := by
        cases c with
        | removeEdge => cases counts
        | _ => rfl
      have adds : c.adds a b h = false := by
        cases c with
        | addEdge => cases counts
        | _ => rfl
      have left := (pruned_run booked held counts).edgeCount a b
      refine ⟨fun spared => ?_, fun lost => ?_⟩
      · rw [left, spared, removes, adds]
        rfl
      · rw [left, lost]
        rfl
  | true =>
      rw [deaths_run_of_counts held h counts]
      refine ⟨fun _ => ?_, fun lost => by cases lost⟩
      cases c with
      | addEdge owner target =>
          show (Heap.addEdge owner target h).2.edges.count a b + 0 =
            h.edges.count a b +
              (decide ((owner, target) = (a, b)) && (Heap.addEdge owner target h).1.isOk).toNat
          rcases addEdge_cases h owner target with ⟨ok, -, -, eq⟩ | ⟨failed, eq⟩
          · rw [eq, ok, Bool.and_true]
            show (h.edges.add owner target).count a b + 0 = _
            rw [EdgeTable.count_add]
            by_cases same : (owner, target) = (a, b)
            · simp [same]
            · simp [same, Ne.symm same]
          · rw [eq, failed, Bool.and_false]
            rfl
      | removeEdge owner target =>
          show (h.edges.remove owner target).2.count a b +
            (decide ((owner, target) = (a, b)) && (h.edges.remove owner target).1).toNat =
              h.edges.count a b + 0
          rw [EdgeTable.count_remove]
          by_cases same : (owner, target) = (a, b)
          · cases same
            have answer : (h.edges.remove a b).1 = true ↔ 0 < h.edges.count a b :=
              removeEdge_iff h a b
            cases found : (h.edges.remove a b).1 with
            | true =>
                have some := answer.mp found
                simp only [if_true, decide_true, Bool.and_self, Bool.toNat_true]
                omega
            | false =>
                have none := mt answer.mpr (Bool.eq_false_iff.mp found)
                simp only [if_true, decide_true, Bool.and_false, Bool.toNat_false]
                omega
          · simp [same, Ne.symm same]
      | pin v =>
          cases v with
          | object p =>
              show (Heap.pin (.object p) h).2.edges.count a b + 0 = h.edges.count a b + 0
              rcases pin_cases h p with ⟨-, -, eq⟩ | ⟨-, eq⟩ <;> rw [eq]
          | _ => rfl
      | unpin v => cases v <;> rfl
      | _ => cases counts

/-! ### Runs -/

theorem booked_new (id : HeapId) (limits : Limits) (mode : CollectionMode) :
    Booked (new id limits mode) where
  intact := intact_new id limits mode
  pinned _ mem := absurd mem List.not_mem_nil
  ends _ mem := absurd mem List.not_mem_nil

theorem Booked.after (booked : Booked h) (turns : List Turn) : Booked (h.after turns) := by
  induction turns generalizing h with
  | nil => exact booked
  | cons t ts ih => exact ih (booked.run t.held t.command)

theorem pinCount_after (booked : Booked h) (turns : List Turn) (o : Handle) :
    (h.after turns).pinCount o + tally (fun h c => c.unpins o h) h turns =
      h.pinCount o + tally (fun h c => c.pins o h) h turns := by
  induction turns generalizing h with
  | nil => rfl
  | cons t ts ih =>
      have first := pinCount_run booked t.held t.command o
      have rest := ih (booked.run t.held t.command)
      show ((t.run h).after ts).pinCount o + ((t.command.unpins o h).toNat + tally _ _ ts) =
        h.pinCount o + ((t.command.pins o h).toNat + tally _ _ ts)
      unfold Turn.run at rest ⊢
      omega

theorem edgeCount_after (booked : Booked h) {turns : List Turn} {a b : Node}
    (untouched : Untouched (a, b) h turns) :
    (h.after turns).edgeCount a b + tally (fun h c => c.removes a b h) h turns =
      h.edgeCount a b + tally (fun h c => c.adds a b h) h turns := by
  induction turns generalizing h with
  | nil => rfl
  | cons t ts ih =>
      have first := (edgeCount_run booked t.held t.command a b).1 untouched.1
      have rest := ih (booked.run t.held t.command) untouched.2
      show ((t.run h).after ts).edgeCount a b +
          ((t.command.removes a b h).toNat + tally _ _ ts) =
        h.edgeCount a b + ((t.command.adds a b h).toNat + tally _ _ ts)
      unfold Turn.run at rest ⊢
      omega

/-- What the counts of a heap say of the run that led to it. -/
structure Balanced (start : Heap) (turns : List Turn) : Prop where
  /-- Pins are those with success, less those taken off. -/
  pinCount : ∀ o, (start.after turns).pinCount o +
    tally (fun h c => c.unpins o h) start turns = tally (fun h c => c.pins o h) start turns
  /-- What is pinned is there. -/
  pinned : ∀ o, 0 < (start.after turns).pinCount o → (start.after turns).isValid o = true
  /-- Registrations are those with success, less those removed, as long as no end of the
  edge has died. -/
  edgeCount : ∀ a b, Untouched (a, b) start turns →
    (start.after turns).edgeCount a b + tally (fun h c => c.removes a b h) start turns =
      tally (fun h c => c.adds a b h) start turns
  /-- When an end has died no registration is left, and what comes after counts alone. -/
  edgeCount_since : ∀ a b before t since, turns = before ++ t :: since →
    losesEnd (deaths (start.after before) (start.after (before ++ [t]))) (a, b) = true →
    (start.after (before ++ [t])).edgeCount a b = 0 ∧
      (Untouched (a, b) (start.after (before ++ [t])) since →
        (start.after turns).edgeCount a b +
            tally (fun h c => c.removes a b h) (start.after (before ++ [t])) since =
          tally (fun h c => c.adds a b h) (start.after (before ++ [t])) since)
  /-- The objects at the ends of an edge are there. -/
  ends : ∀ a b, 0 < (start.after turns).edgeCount a b →
    (start.after turns).IsPresent a ∧ (start.after turns).IsPresent b
  /-- A removal says whether there is a registration. -/
  removed : ∀ a b, ((start.after turns).removeEdge a b).1 = true ↔
    0 < (start.after turns).edgeCount a b
  /-- Different edges are those with a registration. -/
  distinct : Set.encard {e : Node × Node | 0 < (start.after turns).edgeCount e.1 e.2} =
    (start.after turns).distinctEdges

theorem encard_edges (h : Heap) :
    Set.encard {e : Node × Node | 0 < h.edgeCount e.1 e.2} = h.distinctEdges := by
  have same : {e : Node × Node | 0 < h.edgeCount e.1 e.2} =
      (h.edges.toList.toFinset : Set (Node × Node)) := by
    ext e
    simp [edgeCount, EdgeTable.mem_iff]
  rw [same, Set.encard_coe_eq_coe_finsetCard,
    List.toFinset_card_of_nodup h.edges.nodup_toList, EdgeTable.length_toList]
  rfl

/-- **Every count says what happened before**, in every run of a heap. -/
theorem counts_balanced (id : HeapId) (limits : Limits) (mode : CollectionMode)
    (turns : List Turn) : Balanced (new id limits mode) turns := by
  have start := booked_new id limits mode
  have final := start.after turns
  constructor
  case pinCount =>
    intro o
    exact (pinCount_after start turns o).trans (Nat.zero_add _)
  case pinned =>
    intro o positive
    exact final.pinned o (Counted.mem_iff.mpr positive)
  case edgeCount =>
    intro a b untouched
    exact (edgeCount_after start untouched).trans (Nat.zero_add _)
  case edgeCount_since =>
    rintro a b before t since rfl lost
    have booked := start.after before
    rw [show before ++ t :: since = (before ++ [t]) ++ since by simp]
    simp only [Heap.after, List.foldl_append] at lost ⊢
    have none := (edgeCount_run booked t.held t.command a b).2 lost
    refine ⟨none, fun untouched => ?_⟩
    have since := edgeCount_after (booked.run t.held t.command) untouched
    rw [none, Nat.zero_add] at since
    exact since
  case ends =>
    intro a b positive
    exact final.ends (a, b) (EdgeTable.mem_iff.mpr positive)
  case removed => exact removeEdge_iff _
  case distinct => exact encard_edges _

end HostObjects.Heap
