import HostObjects.Proofs.Heap.LostValue

/-!
# The table of persistent roots

A persistent root is known by its place in a table, and empty places are used again.
In every heap that commands lead to, the free places are the empty ones
(`Reachable.rootsTidy`).  So a new root gets a place that was empty and no other root
moves (`root?_addRoot`), and what a root holds is there as long as the root is
(`isValid_run_of_root`).

A place has no generation, unlike a slot.  Whoever keeps the id of a removed root has a
dead id only until a later root is added at the same place, and the next root that is
added is (`removed_root_dead_iff`).  From then on the old id is the id of the new root.
-/

namespace HostObjects.Heap

variable {h h' : Heap} {held : ClassId → Bool} {v : Value} {r s : RootPlace}

/-! ### What a place holds -/

theorem root?_eq_some_iff : h.root? r = some v ↔ h.roots[r.index]? = some (some v) := by
  unfold root?
  cases h.roots[r.index]? with
  | none => simp
  | some found => simp

theorem root?_congr (same : h'.roots = h.roots) : h'.root? = h.root? := by
  funext r
  rw [root?, root?, same]

/-- The free places of the table are its empty places, each once. -/
structure RootsTidy (h : Heap) : Prop where
  nodup : h.freeRoots.Nodup
  mem_freeRoots_iff : ∀ i, i ∈ h.freeRoots ↔ h.roots[i]? = some none

theorem RootsTidy.congr (tidy : RootsTidy h) (roots : h'.roots = h.roots)
    (freeRoots : h'.freeRoots = h.freeRoots) : RootsTidy h' where
  nodup := by
    rw [freeRoots]
    exact tidy.nodup
  mem_freeRoots_iff := by
    rw [freeRoots, roots]
    exact tidy.mem_freeRoots_iff

/-- A new root gets a place that was empty. -/
theorem RootsTidy.root?_fresh (tidy : RootsTidy h) (v : Value) :
    h.root? (h.addRoot v).1 = none := by
  unfold addRoot
  split
  · next i rest free =>
      have empty := (tidy.mem_freeRoots_iff i).mp (free ▸ List.mem_cons_self)
      show (h.roots[i]?).join = none
      rw [empty]
      rfl
  · show (h.roots[h.roots.size]?).join = none
    rw [Array.getElem?_eq_none (Nat.le_refl _)]
    rfl

/-- **A new root is in its place, and no other root moves.** -/
theorem RootsTidy.root?_addRoot (tidy : RootsTidy h) (v : Value) (r : RootPlace) :
    (h.addRoot v).2.root? r = if r = (h.addRoot v).1 then some v else h.root? r := by
  obtain ⟨k⟩ := r
  unfold addRoot
  split
  · next i rest free =>
      have empty := (tidy.mem_freeRoots_iff i).mp (free ▸ List.mem_cons_self)
      have inside := (Array.getElem?_eq_some_iff.mp empty).1
      show ((h.roots.setIfInBounds i (some v))[k]?).join = _
      rw [Array.getElem?_setIfInBounds, if_pos inside]
      by_cases same : i = k
      · rw [if_pos same, if_pos (congrArg RootPlace.mk same.symm)]
        rfl
      · rw [if_neg same, if_neg fun eq => same (RootPlace.mk.inj eq).symm]
        rfl
  · show ((h.roots.push (some v))[k]?).join = _
    rw [Array.getElem?_push]
    by_cases same : k = h.roots.size
    · rw [if_pos same, if_pos (congrArg RootPlace.mk same)]
      rfl
    · rw [if_neg same, if_neg fun eq => same (RootPlace.mk.inj eq)]
      rfl

/-- A change is seen at its place, if there is a root. -/
theorem root?_setRoot (h : Heap) (r : RootPlace) (v : Value) (s : RootPlace) :
    (h.setRoot r v).root? s =
      if s = r ∧ (h.root? r).isSome = true then some v else h.root? s := by
  unfold setRoot
  split
  · next old found =>
      have inside := (Array.getElem?_eq_some_iff.mp (root?_eq_some_iff.mp found)).1
      show ((h.roots.setIfInBounds r.index (some v))[s.index]?).join = _
      rw [Array.getElem?_setIfInBounds, if_pos inside, found]
      by_cases same : s = r
      · rw [if_pos (congrArg RootPlace.index same.symm), if_pos ⟨same, rfl⟩]
        rfl
      · have other : r.index ≠ s.index := fun eq => same (congrArg RootPlace.mk eq.symm)
        rw [if_neg other, if_neg fun both => same both.1]
        rfl
  · next found =>
      rw [if_neg]
      rintro ⟨-, there⟩
      rw [found] at there
      cases there

/-- **A removal empties its place and no other.** -/
theorem root?_removeRoot (h : Heap) (r s : RootPlace) :
    (h.removeRoot r).root? s = if s = r then none else h.root? s := by
  unfold removeRoot
  split
  · next old found =>
      have inside := (Array.getElem?_eq_some_iff.mp (root?_eq_some_iff.mp found)).1
      show ((h.roots.setIfInBounds r.index none)[s.index]?).join = _
      rw [Array.getElem?_setIfInBounds, if_pos inside]
      by_cases same : s = r
      · rw [if_pos (congrArg RootPlace.index same.symm), if_pos same]
        rfl
      · have other : r.index ≠ s.index := fun eq => same (congrArg RootPlace.mk eq.symm)
        rw [if_neg other, if_neg same]
        rfl
  · next found =>
      split
      · next same => rw [same, found]
      · rfl

/-! ### What is valid does not depend on the table -/

theorem isValid_addRoot (h : Heap) (v : Value) : (h.addRoot v).2.isValid = h.isValid :=
  ((Command.addRoot v).run_beside (fun _ => false) h rfl).1.isValid

theorem isValid_setRoot (h : Heap) (r : RootPlace) (v : Value) :
    (h.setRoot r v).isValid = h.isValid :=
  ((Command.setRoot r v).run_beside (fun _ => false) h rfl).1.isValid

theorem isValid_removeRoot (h : Heap) (r : RootPlace) :
    (h.removeRoot r).isValid = h.isValid :=
  ((Command.removeRoot r).run_beside (fun _ => false) h rfl).1.isValid

/-! ### Commands keep the table tidy -/

theorem RootsTidy.addRoot (tidy : RootsTidy h) (v : Value) : RootsTidy (h.addRoot v).2 := by
  unfold Heap.addRoot
  split
  · next i rest free =>
      have nodup := tidy.nodup
      rw [free, List.nodup_cons] at nodup
      have inside := (Array.getElem?_eq_some_iff.mp
        ((tidy.mem_freeRoots_iff i).mp (free ▸ List.mem_cons_self))).1
      refine ⟨nodup.2, fun j => ?_⟩
      show j ∈ rest ↔ (h.roots.setIfInBounds i (some v))[j]? = some none
      rw [Array.getElem?_setIfInBounds, if_pos inside]
      by_cases same : i = j
      · rw [if_pos same, ← same]
        simp [nodup.1]
      · rw [if_neg same, ← tidy.mem_freeRoots_iff, free, List.mem_cons]
        exact ⟨Or.inr, fun mem => mem.resolve_left (Ne.symm same)⟩
  · next free =>
      refine ⟨tidy.nodup, fun j => ?_⟩
      show j ∈ h.freeRoots ↔ (h.roots.push (some v))[j]? = some none
      rw [tidy.mem_freeRoots_iff, Array.getElem?_push]
      split
      · next same => simp [same]
      · rfl

theorem RootsTidy.setRoot (tidy : RootsTidy h) (r : RootPlace) (v : Value) :
    RootsTidy (h.setRoot r v) := by
  unfold Heap.setRoot
  split
  · next old found =>
      have there := root?_eq_some_iff.mp found
      refine ⟨tidy.nodup, fun j => ?_⟩
      show j ∈ h.freeRoots ↔ (h.roots.setIfInBounds r.index (some v))[j]? = some none
      rw [tidy.mem_freeRoots_iff, Array.getElem?_setIfInBounds,
        if_pos (Array.getElem?_eq_some_iff.mp there).1]
      split
      · next same => simp [← same, there]
      · rfl
  · exact tidy

theorem RootsTidy.removeRoot (tidy : RootsTidy h) (r : RootPlace) :
    RootsTidy (h.removeRoot r) := by
  unfold Heap.removeRoot
  split
  · next old found =>
      have there := root?_eq_some_iff.mp found
      have taken : r.index ∉ h.freeRoots := by
        rw [tidy.mem_freeRoots_iff, there]
        simp
      refine ⟨List.nodup_cons.mpr ⟨taken, tidy.nodup⟩, fun j => ?_⟩
      show j ∈ r.index :: h.freeRoots ↔ (h.roots.setIfInBounds r.index none)[j]? = some none
      rw [List.mem_cons, tidy.mem_freeRoots_iff, Array.getElem?_setIfInBounds,
        if_pos (Array.getElem?_eq_some_iff.mp there).1]
      by_cases same : r.index = j
      · simp [same]
      · rw [if_neg same]
        exact ⟨fun mem => mem.resolve_left (Ne.symm same), Or.inr⟩
  · exact tidy

/-- The command is about persistent roots. -/
def Command.movesRoots : Command → Bool
  | addRoot _ | setRoot _ _ | removeRoot _ => true
  | _ => false

/-- A later heap has the same persistent roots, and what they held. -/
structure RootsKept (h h' : Heap) : Prop where
  intact : Intact h'
  roots : h'.roots = h.roots
  freeRoots : h'.freeRoots = h.freeRoots
  isValid : ∀ o, some (.object o) ∈ h.roots.toList → h.isValid o = true →
    h'.isValid o = true

theorem RootsKept.root? (kept : RootsKept h h') : h'.root? = h.root? :=
  root?_congr kept.roots

theorem RootsKept.trans {h'' : Heap} (first : RootsKept h h')
    (second : RootsKept h' h'') : RootsKept h h'' where
  intact := second.intact
  roots := second.roots.trans first.roots
  freeRoots := second.freeRoots.trans first.freeRoots
  isValid o mem valid :=
    second.isValid o (first.roots ▸ mem) (first.isValid o mem valid)

theorem RootsKept.isValid_of_root? (kept : RootsKept h h') {p : Handle}
    (root : h.root? r = some (.object p)) (valid : h.isValid p = true) :
    h'.isValid p = true :=
  kept.isValid p (Array.mem_def.mp (Array.mem_of_getElem? (root?_eq_some_iff.mp root))) valid

theorem tracked_rootsKept (h : Heap) : Tracked (RootsKept h) where
  collect held h' kept := by
    refine ⟨kept.intact.collect held, kept.roots, kept.freeRoots, fun o mem valid => ?_⟩
    have before := kept.isValid o mem valid
    -- A root of the table is a root of the collection.
    exact (isValid_collect_iff kept.intact).mpr ⟨before, .root (kept.roots ▸ mem) before⟩
  place obj h' kept := by
    have same := place_sameLedger h' obj
    refine ⟨stable_intact.place obj h' kept.intact, same.roots.trans kept.roots,
      same.freeRoots.trans kept.freeRoots, fun o mem valid => ?_⟩
    rw [isValid_place kept.intact.freeIsEmpty, kept.isValid o mem valid, Bool.or_true]
  store o obj new h' found kept := by
    refine ⟨stable_intact.store o obj new h' found kept.intact, kept.roots, kept.freeRoots,
      fun p mem valid => ?_⟩
    rw [isValid_store found]
    exact kept.isValid p mem valid
  beside h' h'' same ledger _ kept := by
    refine ⟨kept.intact.congr same, ledger.roots.trans kept.roots,
      ledger.freeRoots.trans kept.freeRoots, fun o mem valid => ?_⟩
    rw [same.isValid]
    exact kept.isValid o mem valid

/-- **The other commands leave the table alone**, and the objects that it roots. -/
theorem rootsKept_run (ok : Intact h) (held : ClassId → Bool) {c : Command}
    (other : c.movesRoots = false) : RootsKept h (c.run held h) := by
  cases books : c.books with
  | false =>
      exact (tracked_rootsKept h).run held books ⟨ok, rfl, rfl, fun _ _ valid => valid⟩
  | true =>
      have same : ∀ h', SameTable h h' → h'.roots = h.roots → h'.freeRoots = h.freeRoots →
          RootsKept h h' := by
        intro h' table roots freeRoots
        refine ⟨ok.congr table, roots, freeRoots, fun o _ valid => ?_⟩
        rwa [table.isValid]
      have table : SameTable h h := SameTable.refl h
      cases c with
      | settle | removeEdge => exact same _ ⟨rfl, rfl, rfl, rfl, rfl⟩ rfl rfl
      | pin v =>
          simp only [Command.run, Heap.pin]
          split
          · split <;> exact same _ ⟨rfl, rfl, rfl, rfl, rfl⟩ rfl rfl
          · exact same _ table rfl rfl
      | unpin v =>
          simp only [Command.run, Heap.unpin]
          split <;> exact same _ ⟨rfl, rfl, rfl, rfl, rfl⟩ rfl rfl
      | addEdge owner target =>
          simp only [Command.run, Heap.addEdge]
          split
          · exact same _ table rfl rfl
          · split <;> exact same _ ⟨rfl, rfl, rfl, rfl, rfl⟩ rfl rfl
      | addRoot | setRoot | removeRoot => cases other
      | _ => cases books

theorem RootsTidy.run (tidy : RootsTidy h) (ok : Intact h) (held : ClassId → Bool)
    (c : Command) : RootsTidy (c.run held h) := by
  cases moves : c.movesRoots with
  | false =>
      have kept := rootsKept_run ok held moves
      exact tidy.congr kept.roots kept.freeRoots
  | true =>
      cases c with
      | addRoot v => exact tidy.addRoot v
      | setRoot r v => exact tidy.setRoot r v
      | removeRoot r => exact tidy.removeRoot r
      | _ => cases moves

/-- **In every reachable heap the free places are the empty ones.** -/
theorem Reachable.rootsTidy (reachable : Reachable h) : RootsTidy h := by
  induction reachable with
  | new id limits mode => exact ⟨List.nodup_nil, fun i => by simp [Heap.new]⟩
  | step reached held c ih => exact ih.run reached.intact held c

/-- **What a root holds is there as long as the root is.** -/
theorem isValid_run_of_root (ok : Intact h) {o : Handle}
    (root : h.root? r = some (.object o)) (valid : h.isValid o = true)
    (held : ClassId → Bool) (c : Command) : (c.run held h).isValid o = true := by
  cases moves : c.movesRoots with
  | false =>
      exact (rootsKept_run ok held moves).isValid_of_root? root valid
  | true =>
      cases c with
      | addRoot v => rwa [Command.run, isValid_addRoot]
      | setRoot r v => rwa [Command.run, isValid_setRoot]
      | removeRoot r => rwa [Command.run, isValid_removeRoot]
      | _ => cases moves

/-! ### Dead ids -/

/-- Nothing is at the place, and whatever is done with its id is ignored. -/
structure IsDead (r : RootPlace) (h : Heap) : Prop where
  root?_eq : h.root? r = none
  setRoot_eq : ∀ v, h.setRoot r v = h
  removeRoot_eq : h.removeRoot r = h

theorem isDead_iff : IsDead r h ↔ h.root? r = none := by
  refine ⟨IsDead.root?_eq, fun empty => ⟨empty, fun v => ?_, ?_⟩⟩
  · rw [setRoot, empty]
  · rw [removeRoot, empty]

/-- Some turn of a run adds a root and gets the place. -/
def Reissued (r : RootPlace) (h : Heap) : List Turn → Prop
  | [] => False
  | t :: ts =>
    (∃ v, t.command = .addRoot v ∧ (h.addRoot v).1 = r) ∨ Reissued r (t.run h) ts

/-- A dead id stays dead in a command, unless it is given to a new root. -/
theorem isDead_run_iff (tidy : RootsTidy h) (ok : Intact h) (dead : IsDead r h)
    (held : ClassId → Bool) (c : Command) :
    IsDead r (c.run held h) ↔ ¬ ∃ v, c = .addRoot v ∧ (h.addRoot v).1 = r := by
  have empty := dead.root?_eq
  rw [isDead_iff]
  cases moves : c.movesRoots with
  | false =>
      rw [root?_congr (rootsKept_run ok held moves).roots]
      refine iff_of_true empty ?_
      rintro ⟨v, rfl, -⟩
      cases moves
  | true =>
      cases c with
      | addRoot v =>
          show (h.addRoot v).2.root? r = none ↔ _
          rw [tidy.root?_addRoot]
          split
          · next same =>
              refine iff_of_false (by simp) ?_
              exact not_not.mpr ⟨v, rfl, same.symm⟩
          · next other =>
              refine iff_of_true empty ?_
              rintro ⟨w, eq, same⟩
              cases eq
              exact other same.symm
      | setRoot s v =>
          show (h.setRoot s v).root? r = none ↔ _
          rw [root?_setRoot, if_neg]
          · exact iff_of_true empty fun ⟨_, eq, _⟩ => by cases eq
          · rintro ⟨rfl, there⟩
            rw [empty] at there
            cases there
      | removeRoot s =>
          show (h.removeRoot s).root? r = none ↔ _
          rw [root?_removeRoot]
          refine iff_of_true ?_ fun ⟨_, eq, _⟩ => by cases eq
          split
          · rfl
          · exact empty
      | _ => cases moves

/-- A run keeps an id dead, unless it gives it to a new root. -/
theorem isDead_states_iff (reachable : Reachable h) (dead : IsDead r h)
    (turns : List Turn) :
    (∀ h' ∈ states h turns, IsDead r h') ↔ ¬ Reissued r h turns := by
  induction turns generalizing h with
  | nil =>
      refine iff_of_true (fun h' mem => ?_) fun reissued => reissued
      rw [List.mem_singleton.mp mem]
      exact dead
  | cons t ts ih =>
      have next := isDead_run_iff reachable.rootsTidy reachable.intact dead t.held t.command
      have first : t.run h ∈ states (t.run h) ts := by
        cases ts <;> exact List.mem_cons_self
      show (∀ h' ∈ h :: states (t.run h) ts, IsDead r h') ↔ ¬ (_ ∨ _)
      rw [List.forall_mem_cons, not_or]
      constructor
      · rintro ⟨-, rest⟩
        have stays := rest _ first
        exact ⟨next.mp stays, (ih (reachable.step t.held t.command) stays).mp rest⟩
      · rintro ⟨notHere, notLater⟩
        have stays := next.mpr notHere
        exact ⟨dead, (ih (reachable.step t.held t.command) stays).mpr notLater⟩

/-- The place freed last is used first. -/
theorem addRoot_removeRoot (root : h.root? r ≠ none) (v : Value) :
    ((h.removeRoot r).addRoot v).1 = r := by
  obtain ⟨old, found⟩ := Option.ne_none_iff_exists'.mp root
  rw [removeRoot, found]
  rfl

/-- **A removed id is dead exactly until a new root gets its place.**  The next root
that is added does: the old id then is the id of the new root, which it can read, change
and remove. -/
theorem removed_root_dead_iff (reachable : Reachable h) (r : RootPlace)
    (turns : List Turn) :
    ((∀ h' ∈ states (h.removeRoot r) turns, IsDead r h') ↔
        ¬ Reissued r (h.removeRoot r) turns) ∧
      (h.root? r ≠ none → ∀ v, ((h.removeRoot r).addRoot v).1 = r ∧
        ((h.removeRoot r).addRoot v).2.root? r = some v) := by
  have removed : Reachable (h.removeRoot r) := reachable.step (fun _ => false) (.removeRoot r)
  have dead : IsDead r (h.removeRoot r) := by
    rw [isDead_iff, root?_removeRoot, if_pos rfl]
  refine ⟨isDead_states_iff removed dead turns, fun root v => ?_⟩
  have place := addRoot_removeRoot root v
  refine ⟨place, ?_⟩
  rw [removed.rootsTidy.root?_addRoot, if_pos place.symm]

/-- A root is added and its value changed. -/
def oneRoot : Heap :=
  after (new ⟨0⟩ .standard .synchronous)
    (turnsOf [.allocPlain, .addRoot .null, .setRoot ⟨0⟩ (.object ⟨⟨0⟩, 2, 0⟩)])

theorem reachable_oneRoot : Reachable oneRoot := (Reachable.new _ _ _).after _

/-- Once removed, it stays dead while dead ids are changed and removed, and the next root
gets its place. -/
theorem removed_root_dead_oneRoot :
    (∀ h ∈ states (oneRoot.removeRoot ⟨0⟩)
        (turnsOf [.setRoot ⟨0⟩ .null, .removeRoot ⟨0⟩, .collect]), IsDead ⟨0⟩ h) ∧
      ∀ v, ((oneRoot.removeRoot ⟨0⟩).addRoot v).1 = ⟨0⟩ := by
  obtain ⟨stays, next⟩ := removed_root_dead_iff reachable_oneRoot ⟨0⟩
    (turnsOf [.setRoot ⟨0⟩ .null, .removeRoot ⟨0⟩, .collect])
  refine ⟨stays.mpr ?_, fun v => (next (by decide +kernel) v).1⟩
  rintro (⟨v, eq, -⟩ | ⟨v, eq, -⟩ | ⟨v, eq, -⟩ | no)
  · cases eq
  · cases eq
  · cases eq
  · exact no

/-- A root is removed, and the next one is for an object. -/
def reusedRoot : List Turn :=
  turnsOf [.allocPlain, .addRoot (.object ⟨⟨0⟩, 3, 0⟩)]

/-- **An id that comes back to life**: the removed id is that of the later root.  A
collection spares the object of that root, until the old id is removed once more. -/
theorem not_isDead_reusedRoot :
    (oneRoot.removeRoot ⟨0⟩).after reusedRoot ∈ states (oneRoot.removeRoot ⟨0⟩) reusedRoot ∧
      ¬ IsDead ⟨0⟩ ((oneRoot.removeRoot ⟨0⟩).after reusedRoot) ∧
      (((oneRoot.removeRoot ⟨0⟩).after reusedRoot).collect fun _ => false).isValid
        ⟨⟨0⟩, 3, 0⟩ = true ∧
      ((((oneRoot.removeRoot ⟨0⟩).after reusedRoot).removeRoot ⟨0⟩).collect fun _ =>
        false).isValid ⟨⟨0⟩, 3, 0⟩ = false := by
  refine ⟨?_, ?_, by decide +kernel, by decide +kernel⟩
  · exact List.mem_cons_of_mem _ (List.mem_cons_of_mem _ List.mem_cons_self)
  · rw [isDead_iff]
    decide +kernel

end HostObjects.Heap
