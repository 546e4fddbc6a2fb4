import HostObjects.Group.Basic
import HostObjects.Proofs.Heap.RootTable

/-!
# Owners of roots

Global contexts and owned roots each have a persistent root of a heap, and managed
values may have an external edge.  Whoever drops an owner leaves a release to be undone.

An owner is `Safe` as long as its root is there, with a value that the root is for; then
the object is there as well.  What can end this is a removal of its root, or another
value put in its place (`Owner.safe_setRoot_iff`).  Whom the roots of a heap belong to is
a list of places, each once (`Assigned`), and what makes an owner adds the place that it
gets (`Makes`).
-/

namespace HostObjects

open Heap

/-! ### Owners -/

/-- What has a root or an edge of a heap, and leaves it to be undone when dropped. -/
inductive Owner where
  /-- A global context, with its global object and the root that keeps it. -/
  | context (global : Handle) (root : RootPlace)
  | root (r : OwnedRoot)
  | managed (m : ManagedValue)
deriving DecidableEq

namespace Owner

/-- The place of its root, if it has one. -/
def place? : Owner → Option RootPlace
  | context _ r => some r
  | root r => some r.root
  | managed _ => none

/-- What its drop leaves to be undone. -/
def release? : Owner → Option Release
  | context _ r => some (.root r)
  | root r => some (.root r.root)
  | managed m =>
    match m.owner, m.value with
    | some owner, .object o => some (.edge owner (.object o))
    | _, _ => none

/-- The value is what the root of the owner is for: the global object of the context, or
any value that a heap may hold. -/
def Accepts (h : Heap) (v : Value) : Owner → Prop
  | context global _ => v = .object global ∧ h.isValid global = true
  | root _ => h.checkStorable v = .ok ()
  | managed _ => True

/-- The root of the owner is there, with a value that it is for.  So the global object
of a context is valid, and whatever object an owned root has. -/
def Safe (h : Heap) (o : Owner) : Prop :=
  ∀ r, o.place? = some r → ∃ v, h.root? r = some v ∧ o.Accepts h v

/-- Allocates the global object of a context: of a class with its prototype, or a plain
one. -/
def newGlobal (held : ClassId → Bool) : Option (Class × Handle) → HeapM Handle
  | some (c, proto) => allocInstance held c none proto
  | none => allocPlain held

/-- Makes a context: allocates its global object and roots it. -/
def makeContext (held : ClassId → Bool) (made : Option (Class × Handle)) : HeapM Owner := do
  let o ← newGlobal held made
  modifyGet fun h =>
    let (r, h) := h.addRoot (.object o)
    (.context o r, h)

end Owner

/-- The place that a release empties. -/
def Release.place? : Release → Option RootPlace
  | .root r => some r
  | .edge _ _ => none

/-! ### What commands do to a root that is owned -/

section Commands

variable {h h' : Heap} {o : Owner} {v : Value} {r : RootPlace}

/-- Values are accepted by the objects that they are. -/
theorem Owner.Accepts.mono (accepts : o.Accepts h v)
    (isValid : ∀ p, v = .object p → h.isValid p = true → h'.isValid p = true) :
    o.Accepts h' v := by
  cases o with
  | context global r =>
      obtain ⟨rfl, valid⟩ := accepts
      exact ⟨rfl, isValid global rfl valid⟩
  | root r =>
      have valid := checkStorable_eq_ok_iff.mp accepts
      exact checkStorable_eq_ok_iff.mpr fun p eq => isValid p eq (valid p eq)
  | managed m => trivial

theorem Owner.accepts_congr (same : h'.isValid = h.isValid) :
    o.Accepts h' v ↔ o.Accepts h v :=
  ⟨fun accepts => accepts.mono fun p _ valid => by rwa [← same],
    fun accepts => accepts.mono fun p _ valid => by rwa [same]⟩

theorem Owner.Safe.kept (safe : o.Safe h) (kept : RootsKept h h') : o.Safe h' := by
  intro r place
  obtain ⟨v, root, accepts⟩ := safe r place
  refine ⟨v, by rwa [kept.root?], accepts.mono fun p eq valid => ?_⟩
  subst eq
  exact kept.isValid_of_root? root valid

theorem Owner.Safe.addRoot (safe : o.Safe h) (tidy : RootsTidy h) (v : Value) :
    o.Safe (h.addRoot v).2 := by
  intro r place
  obtain ⟨w, root, accepts⟩ := safe r place
  refine ⟨w, ?_, (Owner.accepts_congr (isValid_addRoot h v)).mpr accepts⟩
  rw [tidy.root?_addRoot, if_neg, root]
  intro eq
  rw [eq, tidy.root?_fresh] at root
  cases root

/-- What is put in the place of an owner's root is what the root is for, or the owner
is not safe any more. -/
theorem Owner.safe_setRoot_iff (safe : o.Safe h) (r : RootPlace) (v : Value) :
    o.Safe (h.setRoot r v) ↔ (o.place? = some r → o.Accepts h v) := by
  have same := isValid_setRoot h r v
  constructor
  · intro later place
    obtain ⟨old, root, -⟩ := safe r place
    obtain ⟨w, now, accepts⟩ := later r place
    rw [root?_setRoot, if_pos ⟨rfl, by rw [root]; rfl⟩, Option.some.injEq] at now
    subst now
    exact (Owner.accepts_congr same).mp accepts
  · intro accepted s place
    obtain ⟨old, root, accepts⟩ := safe s place
    rw [root?_setRoot]
    split
    · next both =>
        obtain ⟨rfl, -⟩ := both
        exact ⟨v, rfl, (Owner.accepts_congr same).mpr (accepted place)⟩
    · exact ⟨old, root, (Owner.accepts_congr same).mpr accepts⟩

theorem Owner.Safe.removeRoot (safe : o.Safe h) (other : o.place? ≠ some r) :
    o.Safe (h.removeRoot r) := by
  intro s place
  obtain ⟨v, root, accepts⟩ := safe s place
  refine ⟨v, ?_, (Owner.accepts_congr (isValid_removeRoot h r)).mpr accepts⟩
  rw [root?_removeRoot, if_neg, root]
  rintro rfl
  exact other place

end Commands

/-! ### Whom the roots of a heap belong to -/

theorem filterMap_cons_eq {α β : Type} (f : α → Option β) (a : α) (l : List α) :
    (a :: l).filterMap f = (f a).toList ++ l.filterMap f := by
  rw [List.filterMap_cons]
  cases f a <;> rfl

/-- The heap is as between commands, and its roots are at the places of a list, each
place once. -/
structure Assigned (h : Heap) (places : List RootPlace) : Prop where
  intact : Intact h
  tidy : RootsTidy h
  nodup : places.Nodup
  mem_iff : ∀ r, r ∈ places ↔ h.root? r ≠ none

namespace Assigned

variable {h h' : Heap} {places places' : List RootPlace} {r : RootPlace}

theorem perm (assigned : Assigned h places) (same : places.Perm places') :
    Assigned h places' where
  intact := assigned.intact
  tidy := assigned.tidy
  nodup := same.nodup_iff.mp assigned.nodup
  mem_iff r := same.mem_iff.symm.trans (assigned.mem_iff r)

theorem kept (assigned : Assigned h places) (kept : RootsKept h h') :
    Assigned h' places where
  intact := kept.intact
  tidy := assigned.tidy.congr kept.roots kept.freeRoots
  nodup := assigned.nodup
  mem_iff := by
    rw [kept.root?]
    exact assigned.mem_iff

theorem addRoot (assigned : Assigned h places) (v : Value) :
    Assigned (h.addRoot v).2 ((h.addRoot v).1 :: places) where
  intact := assigned.intact.run (fun _ => false) (.addRoot v)
  tidy := assigned.tidy.addRoot v
  nodup := by
    refine List.nodup_cons.mpr ⟨?_, assigned.nodup⟩
    rw [assigned.mem_iff]
    exact not_not.mpr (assigned.tidy.root?_fresh v)
  mem_iff s := by
    rw [List.mem_cons, assigned.tidy.root?_addRoot, assigned.mem_iff]
    split
    · next same => exact iff_of_true (Or.inl same) (by simp)
    · next other => exact or_iff_right other

theorem setRoot (assigned : Assigned h places) (r : RootPlace) (v : Value) :
    Assigned (h.setRoot r v) places where
  intact := assigned.intact.run (fun _ => false) (.setRoot r v)
  tidy := assigned.tidy.setRoot r v
  nodup := assigned.nodup
  mem_iff s := by
    rw [root?_setRoot, assigned.mem_iff]
    split
    · next both =>
        obtain ⟨rfl, there⟩ := both
        exact iff_of_true (Option.isSome_iff_ne_none.mp there) (by simp)
    · exact Iff.rfl

theorem removeRoot (assigned : Assigned h places) (r : RootPlace) :
    Assigned (h.removeRoot r) (places.erase r) where
  intact := assigned.intact.run (fun _ => false) (.removeRoot r)
  tidy := assigned.tidy.removeRoot r
  nodup := assigned.nodup.erase r
  mem_iff s := by
    rw [assigned.nodup.mem_erase_iff, root?_removeRoot, assigned.mem_iff]
    split
    · next same => exact iff_of_false (fun both => both.1 same) (by simp)
    · next other => exact and_iff_right other

/-- Undoing a release empties its place. -/
theorem apply {rel : Release} (assigned : Assigned h (rel.place?.toList ++ places)) :
    Assigned (rel.apply h) places := by
  cases rel with
  | root r =>
      have removed := assigned.removeRoot r
      rwa [show (Release.root r).place?.toList ++ places = r :: places from rfl,
        List.erase_cons_head] at removed
  | edge owner target =>
      exact assigned.kept
        (rootsKept_run assigned.intact (fun _ => false) (c := .removeEdge owner target) rfl)

theorem applyAll {rels : List Release}
    (assigned : Assigned h (rels.filterMap Release.place? ++ places)) :
    Assigned (Release.applyAll h rels) places := by
  induction rels generalizing h with
  | nil => exact assigned
  | cons rel rels ih =>
      refine ih (h := rel.apply h) (apply (assigned.perm (List.Perm.of_eq ?_)))
      rw [filterMap_cons_eq, List.append_assoc]

end Assigned

/-- Undoing releases empties their places and no other. -/
theorem root?_applyAll (h : Heap) (rels : List Release) (r : RootPlace) :
    (Release.applyAll h rels).root? r = if .root r ∈ rels then none else h.root? r := by
  induction rels generalizing h with
  | nil => rw [if_neg List.not_mem_nil]; rfl
  | cons rel rels ih =>
      show (Release.applyAll (rel.apply h) rels).root? r = _
      rw [ih]
      by_cases later : .root r ∈ rels
      · rw [if_pos later, if_pos (List.mem_cons_of_mem _ later)]
      · rw [if_neg later]
        cases rel with
        | root s =>
            show (h.removeRoot s).root? r = _
            rw [root?_removeRoot]
            by_cases same : r = s
            · rw [if_pos same, if_pos (same ▸ List.mem_cons_self)]
            · rw [if_neg same, if_neg]
              rintro (_ | ⟨_, mem⟩)
              · exact same rfl
              · exact later mem
        | edge owner target =>
            rw [if_neg]
            · rfl
            · rintro (_ | ⟨_, mem⟩)
              exact later mem

theorem isValid_applyAll (h : Heap) (rels : List Release) :
    (Release.applyAll h rels).isValid = h.isValid := by
  induction rels generalizing h with
  | nil => rfl
  | cons rel rels ih =>
      show (Release.applyAll (rel.apply h) rels).isValid = _
      rw [ih]
      cases rel with
      | root r => exact isValid_removeRoot h r
      | edge owner target => rfl

/-- An owner stays safe while releases are undone at other places. -/
theorem Owner.Safe.applyAll {h : Heap} {o : Owner} {rels : List Release}
    (safe : o.Safe h) (other : ∀ r, o.place? = some r → .root r ∉ rels) :
    o.Safe (Release.applyAll h rels) := by
  intro r place
  obtain ⟨v, root, accepts⟩ := safe r place
  refine ⟨v, ?_, (Owner.accepts_congr (isValid_applyAll h rels)).mpr accepts⟩
  rw [root?_applyAll, if_neg (other r place), root]

/-! ### Making owners -/

/-- The owner got a root for a value that it is for, or has none. -/
inductive Grants (h : Heap) : Owner → Heap → Prop
  | none {o : Owner} (noPlace : o.place? = none) : Grants h o h
  | root {o : Owner} (v : Value) (accepts : o.Accepts h v)
      (place : o.place? = some (h.addRoot v).1) : Grants h o (h.addRoot v).2

/-- The operation makes an owner, and leaves all other roots alone. -/
def Makes (make : HeapM Owner) : Prop :=
  ∀ h, Intact h →
    Meets (RootsKept h) make (fun o h' => ∃ h₁, RootsKept h h₁ ∧ Grants h₁ o h')
      (RootsKept h)

theorem meets_alloc (h : Heap) (held : ClassId → Bool) (obj : HostObject) :
    Meets (RootsKept h) (alloc held obj) (fun o h' => RootsKept h h' ∧ h'.isValid o = true)
      (RootsKept h) := by
  have tracked := tracked_rootsKept h
  refine Meets.bind ((tracked.quiet held).makeRoom #[] _) fun _ h₁ kept => ?_
  refine ⟨fun o h' run => ?_, fun e h' run => ?_⟩
  · cases run
    exact ⟨tracked.place obj h₁ kept, isValid_place_fst kept.intact.freeIsEmpty obj⟩
  · cases run

theorem makes_context (held : ClassId → Bool) (made : Option (Class × Handle)) :
    Makes (Owner.makeContext held made) := by
  intro h ok
  unfold Owner.makeContext
  refine Meets.bind (Q := fun o h₁ => RootsKept h h₁ ∧ h₁.isValid o = true) ?_ fun o => ?_
  · cases made with
    | some => exact meets_alloc h held _
    | none => exact Meets.bind (Q := fun _ => RootsKept h) Preserves.get fun _ =>
        meets_alloc h held _
  · rintro h₁ ⟨kept, valid⟩
    refine ⟨fun owner h' run => ?_, fun e h' run => ?_⟩
    · cases run
      exact ⟨h₁, kept, .root (.object o) ⟨rfl, valid⟩ rfl⟩
    · cases run

theorem makes_root (v : Value) : Makes (Owner.root <$> newOwnedRoot v) := by
  intro h ok h₁ kept
  rw [map_apply]
  unfold newOwnedRoot
  rw [bind_apply]
  dsimp only [Heap.reading]
  cases storable : h₁.checkStorable v with
  | error e =>
      refine ⟨fun o h' run => ?_, fun e' h' run => ?_⟩
      · cases run
      · cases run
        exact kept
  | ok _ =>
      refine ⟨fun o h' run => ?_, fun e' h' run => ?_⟩
      · cases run
        exact ⟨h₁, kept, .root v storable rfl⟩
      · cases run

theorem makes_managed (v : Value) (owner : Option Node) :
    Makes (Owner.managed <$> newManaged v owner) := by
  intro h ok h₁ kept
  have add : ∀ a b, Preserves (RootsKept h) (addEdge a b) := by
    intro a b
    refine Preserves.of_state fun s kept => kept.trans ?_
    exact rootsKept_run kept.intact (fun _ => false) (c := .addEdge a b) rfl
  have keep : Preserves (RootsKept h) (newManaged v owner) := by
    unfold newManaged
    refine Preserves.get.bind fun _ => ?_
    split
    · exact (add _ _).bind fun _ => Preserves.pure _
    · exact Preserves.pure _
  obtain ⟨made, failed⟩ := keep h₁ kept
  rw [map_apply]
  rcases run : newManaged v owner h₁ with ⟨e | m, h₂⟩
  · refine ⟨fun o h' eq => ?_, fun e' h' eq => ?_⟩
    · cases eq
    · cases eq
      exact failed e h₂ run
  · refine ⟨fun o h' eq => ?_, fun e' h' eq => ?_⟩
    · cases eq
      exact ⟨h₂, made m h₂ run, .none rfl⟩
    · cases eq

section Grants

variable {h h' : Heap} {o p : Owner} {places : List RootPlace}

theorem Grants.assigned (grants : Grants h o h') (assigned : Assigned h places) :
    Assigned h' (o.place?.toList ++ places) := by
  cases grants with
  | none noPlace =>
      rw [noPlace]
      exact assigned
  | root v accepts place =>
      rw [place]
      exact assigned.addRoot v

/-- The new owner is safe. -/
theorem Grants.safe (grants : Grants h o h') (tidy : RootsTidy h) : o.Safe h' := by
  cases grants with
  | none noPlace =>
      intro r place
      rw [noPlace] at place
      cases place
  | root v accepts got =>
      intro r place
      rw [got, Option.some.injEq] at place
      subst place
      refine ⟨v, ?_, (Owner.accepts_congr (isValid_addRoot h v)).mpr accepts⟩
      rw [tidy.root?_addRoot, if_pos rfl]

/-- The other owners are as safe as they were. -/
theorem Grants.safe_of_safe (grants : Grants h o h') (tidy : RootsTidy h)
    (safe : p.Safe h) : p.Safe h' := by
  cases grants with
  | none => exact safe
  | root v => exact safe.addRoot tidy v

end Grants

end HostObjects
