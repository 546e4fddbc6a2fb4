import HostObjects.Proofs.Heap.Census
import HostObjects.Proofs.View.Diary
import HostObjects.Proofs.View.Invocation

/-!
# The life of an object

A `Course` leads from a session to a later one, in whatever way operations and the host
can, and lists the objects of a class that were made on the way.  Along a course that
starts with a new heap, the diary of the host has one block of finalizers for each
object that is gone (`Course.accounted`), and the objects that are gone and those that
are there are, together, the ones that were made.  So when the heap is torn down at the
end, each object of a class was finalized once, whether it died in a collection or was
left to the teardown, and whether or not its set-up succeeded
(`finalized_exactly_once`).

The set-up callbacks of a class run in the other direction, the base class first, until
one fails (`setUps_setUp`).
-/

namespace HostObjects

open Heap

variable {σ α : Type} {host : Host σ} {read : σ → List Entry}

/-! ### Courses -/

/-- What operations of a view and its host can lead to from a session, with the objects
of a class that were made on the way. -/
inductive Course (host : Host σ) (read : σ → List Entry) (start : Session σ) :
    List (Handle × Class) → Session σ → Prop
  | start : Course host read start [] start
  /-- A command that may collect; then the dead objects are let go. -/
  | allocate {made : List (Handle × Class)} {s : Session σ}
      (course : Course host read start made s) (held : ClassId → Bool) (c : Command)
      (allocates : c.allocates = true) :
      Course host read start (made ++ c.instances held s.heap)
        (Action.settle host { s with heap := c.run held s.heap })
  /-- Any other command. -/
  | change {made : List (Handle × Class)} {s : Session σ}
      (course : Course host read start made s) (c : Command)
      (still : c.allocates = false) (notSettle : c ≠ .settle) :
      Course host read start made { s with heap := c.run (fun _ => false) s.heap }
  /-- A change of the host that leaves its diary alone. -/
  | beside {made : List (Handle × Class)} {s : Session σ}
      (course : Course host read start made s) (holding : List Class) (st : σ)
      (same : read st = read s.host) :
      Course host read start made ⟨s.heap, holding, st⟩

/-- A host that keeps a diary and whose functions act through the view that they are
given. -/
structure Host.Diarist (host : Host σ) (read : σ → List Entry) : Prop
    extends host.toReclaimer.KeepsDiary read where
  answer : ∀ {α : Type} (f : HostFunction) (r : Request α) (s : Session σ),
    ∃ made, Course host read s made (host.answer f r s).2

variable {start s s' : Session σ} {made more : List (Handle × Class)}

theorem Course.trans (first : Course host read start made s)
    (second : Course host read s more s') : Course host read start (made ++ more) s' := by
  induction second with
  | start => rwa [List.append_nil]
  | allocate _ held c allocates ih =>
      rw [← List.append_assoc]
      exact ih.allocate held c allocates
  | change _ c still notSettle ih => exact ih.change c still notSettle
  | beside _ holding st same ih => exact ih.beside holding st same

/-! ### Operations are courses -/

/-- Being on a course lasts through whatever a view does. -/
theorem Host.Diarist.enduring (diarist : host.Diarist read) (start : Session σ) :
    Enduring host 0 fun s => ∃ made, Course host read start made s where
  allocating s c allocates := fun ⟨_, course⟩ =>
    ⟨_, course.allocate (Action.heldOutside host s) c allocates⟩
  editing _ c still notSettle _ := fun ⟨_, course⟩ => ⟨_, course.change c still notSettle⟩
  discard s data := fun ⟨_, course⟩ =>
    ⟨_, course.beside s.holding _ (diarist.discard data s.host)⟩
  holding s cs := fun ⟨_, course⟩ => ⟨_, course.beside cs s.host rfl⟩
  high _ _ := Nat.zero_le _
  push _ v := fun ⟨_, course⟩ => ⟨_, course.change (.pushRoot v) rfl nofun⟩
  cut _ height _ := fun ⟨_, course⟩ => ⟨_, course.change (.cutStack height) rfl nofun⟩

theorem Host.Diarist.keeps (diarist : host.Diarist read) (start : Session σ) :
    host.Keeps fun s => ∃ made, Course host read start made s :=
  fun f r => Preserves.of_state fun s ⟨_, course⟩ =>
    let ⟨_, further⟩ := diarist.answer f r s
    ⟨_, course.trans further⟩

/-- Every operation is a course. -/
theorem course_perform (diarist : host.Diarist read) (q : Invocation α) (s : Session σ) :
    ∃ made, Course host read s made (q.perform host s).2 :=
  (q.keeps_perform (diarist.enduring s) (diarist.keeps s)).state ⟨[], .start⟩

/-! ### Along a course -/

/-- Dead objects are let go when the command returns that removed them. -/
theorem settle_eq (host : Host σ) (s : Session σ) :
    Action.settle host s =
      ⟨{ s.heap with reaped := [] }, s.holding,
        letAllGo host.toReclaimer s.heap.reaped s.host⟩ := by
  unfold Action.settle
  dsimp only
  split
  · next none =>
      rw [none]
      show s = ⟨{ s.heap with reaped := [] }, s.holding, s.host⟩
      rw [← none]
  · next some => rw [some]

/-- Between operations the objects of a class that were made are accounted for: those
that are gone have their block in the diary, and the others are in the heap. -/
structure Accounted (read : σ → List Entry) (made : List (Handle × Class))
    (s : Session σ) : Prop where
  intact : Intact s.heap
  settled : s.heap.reaped = []
  gone : ∃ gone, Diary gone (read s.host) ∧
    (gone.filterMap Reaped.instance? ++ s.heap.instances).Perm made

/-- The census of a heap without dead objects is of those in it. -/
theorem census_instances {h : Heap} (settled : h.reaped = []) : Census h.instances h := by
  unfold Census
  rw [settled]
  exact List.Perm.refl _

namespace Accounted

variable (keeps : host.KeepsDiary read) (accounted : Accounted read made s)
include accounted

include keeps in
/-- A command that may collect, and letting go of what it removed. -/
theorem allocate (held : ClassId → Bool) {c : Command} (allocates : c.allocates = true) :
    Accounted read (made ++ c.instances held s.heap)
      (Action.settle host { s with heap := c.run held s.heap }) := by
  have notSettle : c ≠ .settle := by
    rintro rfl
    cases allocates
  obtain ⟨gone, diary, perm⟩ := accounted.gone
  have census := census_run held notSettle accounted.intact (census_instances accounted.settled)
  have intact := stable_intact.run held notSettle accounted.intact
  rw [settle_eq]
  generalize c.run held s.heap = h at census intact
  obtain ⟨es, block, noted⟩ := diary_letAllGo keeps h.reaped s.host
  refine ⟨intact.congr ⟨rfl, rfl, rfl, rfl, rfl⟩, rfl, gone ++ h.reaped, ?_, ?_⟩
  · show Diary _ (read (letAllGo host.toReclaimer h.reaped s.host))
    rw [noted]
    exact diary.append block
  · show ((gone ++ h.reaped).filterMap Reaped.instance? ++ h.instances).Perm _
    unfold Census at census
    rw [List.filterMap_append] at census
    rw [List.filterMap_append, List.append_assoc]
    refine (census.append_left _).trans ?_
    rw [← List.append_assoc]
    exact perm.append_right _

/-- Any other command. -/
theorem change {c : Command} (still : c.allocates = false) (notSettle : c ≠ .settle) :
    Accounted read made { s with heap := c.run (fun _ => false) s.heap } := by
  have none : c.instances (fun _ => false) s.heap = [] := by
    cases c with
    | allocInstance => cases still
    | _ => rfl
  obtain ⟨gone, diary, perm⟩ := accounted.gone
  have census := census_run (fun _ => false) notSettle accounted.intact
    (census_instances accounted.settled)
  have settled : (c.run (fun _ => false) s.heap).reaped = [] :=
    (c.reaped_run _ s.heap still notSettle).trans accounted.settled
  unfold Census at census
  rw [none, List.append_nil, settled, List.nil_append] at census
  refine ⟨stable_intact.run _ notSettle accounted.intact, settled, gone, diary, ?_⟩
  exact (census.append_left _).trans perm

end Accounted

/-- **Along a course the objects of a class are accounted for.** -/
theorem Course.accounted (keeps : host.KeepsDiary read)
    (course : Course host read start made s) (before : Accounted read [] start) :
    Accounted read made s := by
  induction course with
  | start => exact before
  | allocate _ held c allocates ih => exact ih.allocate keeps held allocates
  | change _ c still notSettle ih => exact ih.change still notSettle
  | beside _ holding st same ih =>
      obtain ⟨gone, diary, perm⟩ := ih.gone
      exact ⟨ih.intact, ih.settled, gone, same ▸ diary, perm⟩

theorem accounted_new (id : HeapId) (limits : Limits) (mode : CollectionMode)
    (holding : List Class) {st : σ} (fresh : read st = []) :
    Accounted read [] (⟨new id limits mode, holding, st⟩ : Session σ) where
  intact := intact_new id limits mode
  settled := rfl
  gone := by
    refine ⟨[], ?_, List.Perm.refl []⟩
    show Diary [] (read st)
    rw [fresh]
    exact .nil

/-! ### Making objects -/

theorem instances_allocInstance {held : ClassId → Bool} {c : Class}
    {data : Option PrivateData} {proto o : Handle} {h : Heap}
    (made : (allocInstance held c data proto h).1 = .ok o) :
    (Command.allocInstance c data proto).instances held h = [(o, c)] := by
  unfold Command.instances
  dsimp only
  split
  · next p h' eq =>
      rw [eq] at made
      cases made
      rfl
  · next e h' eq =>
      rw [eq] at made
      cases made

theorem allocating_apply (act : (ClassId → Bool) → HeapM α) (s : Session σ) :
    Action.allocating host act s =
      ((act (Action.heldOutside host s) s.heap).1,
        Action.settle host
          { s with heap := (act (Action.heldOutside host s) s.heap).2 }) := by
  cases s
  rfl

/-- An instance that is made is an object of its class that was made. -/
theorem course_makeInstance {c : Class} {data : Option PrivateData} {o : Handle}
    (run : View.makeInstance host c data s = (.ok o, s')) :
    Course host read s [(o, c)] s' := by
  unfold View.makeInstance View.orDiscard at run
  rw [tryCatch_apply, bind_apply, allocating_apply] at run
  have found : Course host read s [] _ :=
    Course.start.allocate (Action.heldOutside host s) (.prototypeOf c) rfl
  change Course host read s [] (Action.settle host
    { s with heap := (prototypeOf (Action.heldOutside host s) c.chain s.heap).2 }) at found
  generalize prototypeOf (Action.heldOutside host s) c.chain s.heap = out at run found
  rcases out with ⟨e | proto, h⟩
  · cases run
  · dsimp only at run found
    generalize Action.settle host { s with heap := h } = between at run found
    have placed := found.allocate (Action.heldOutside host between)
      (.allocInstance c data proto) rfl
    have act : Action.allocating host (fun held => allocInstance held c data proto) between =
      _ := allocating_apply _ between
    generalize Action.allocating host (fun held => allocInstance held c data proto) between =
      out at run act
    rcases out with ⟨e | p, s''⟩
    · cases run
    · cases run
      obtain ⟨answered, rfl⟩ := Prod.mk.inj act.symm
      rwa [instances_allocInstance answered] at placed

/-- The requests to set up an object, made one after the other until one fails. -/
inductive SetUps (host : Host σ) (o : Handle) :
    List HostFunction → Session σ → Except Fault Unit × Session σ → Prop
  | done (s : Session σ) : SetUps host o [] s (.ok (), s)
  | asked {f : HostFunction} {fs : List HostFunction} {s s' : Session σ}
      {out : Except Fault Unit × Session σ}
      (answered : host.answer f (.setUp o) s = (.ok (), s'))
      (rest : SetUps host o fs s' out) : SetUps host o (f :: fs) s out
  | failed {f : HostFunction} {s s' : Session σ} {e : Fault}
      (failed : host.answer f (.setUp o) s = (.error e, s')) :
      SetUps host o [f] s (.error e, s')

theorem setUps_setUpAlong (o : Handle) (ds : List Descriptor) (s : Session σ) :
    ∃ asked unasked, ds.filterMap (fun d => d.callbacks .setUp) = asked ++ unasked ∧
      SetUps host o asked s (View.setUpAlong host o ds s) ∧
      ((View.setUpAlong host o ds s).1 = .ok () → unasked = []) := by
  induction ds generalizing s with
  | nil => exact ⟨[], [], rfl, .done s, fun _ => rfl⟩
  | cons d ds ih =>
      unfold View.setUpAlong
      cases callback : d.callbacks .setUp with
      | none =>
          have skipped : (d :: ds).filterMap (fun d => d.callbacks .setUp) =
              ds.filterMap fun d => d.callbacks .setUp := List.filterMap_cons_none callback
          rw [skipped]
          exact ih s
      | some f =>
          have first : (d :: ds).filterMap (fun d => d.callbacks .setUp) =
              f :: ds.filterMap fun d => d.callbacks .setUp := List.filterMap_cons_some callback
          dsimp only
          rw [first, bind_apply]
          rcases answer : host.answer f (.setUp o) s with ⟨e | ⟨⟩, s'⟩
          · refine ⟨[f], _, rfl, .failed answer, fun ok => ?_⟩
            cases ok
          · obtain ⟨asked, unasked, split, setUps, all⟩ := ih s'
            refine ⟨f :: asked, unasked, ?_, .asked answer setUps, all⟩
            rw [split]
            rfl

/-- **Set-up callbacks run base class first**, each once, until one fails. -/
theorem setUps_setUp (o : Handle) (c : Class) (s : Session σ) :
    ∃ asked unasked,
      c.chain.reverse.filterMap (fun d => d.callbacks .setUp) = asked ++ unasked ∧
      SetUps host o asked s (View.setUp host o c s) ∧
      ((View.setUp host o c s).1 = .ok () → unasked = []) :=
  setUps_setUpAlong o c.chain.reverse s

/-- The session in which the set-up of a new object starts: the object is rooted. -/
def Session.rooted (s : Session σ) (o : Handle) : Session σ :=
  s.withHeap (s.heap.pushRoot (.object o))

theorem makeObject_of_makeInstance {c : Class} {data : Option PrivateData} {o : Handle}
    (run : View.makeInstance host c data s = (.ok o, s')) :
    View.makeObject host (some c) data s =
      ((View.setUp host o c (s'.rooted o)).1.map fun _ => o,
        (View.setUp host o c (s'.rooted o)).2) := by
  unfold View.makeObject
  dsimp only
  rw [bind_apply, run]
  show (View.setUp host o c >>= fun _ => pure o) (s'.rooted o) = _
  rw [bind_apply]
  rcases View.setUp host o c (s'.rooted o) with ⟨e | ⟨⟩, t⟩ <;> rfl

theorem makeObject_of_failed {c : Class} {data : Option PrivateData} {e : Fault}
    (run : View.makeInstance host c data s = (.error e, s')) :
    View.makeObject host (some c) data s = (.error e, s') := by
  unfold View.makeObject
  dsimp only
  rw [bind_apply, run]

/-- A new object was made, whether its set-up succeeds or not. -/
theorem course_setUp (diarist : host.Diarist read) {c : Class} {data : Option PrivateData}
    {o : Handle} (run : View.makeInstance host c data s = (.ok o, s')) :
    ∃ more, Course host read s ((o, c) :: more) (View.setUp host o c (s'.rooted o)).2 := by
  have rooted : Course host read s [(o, c)] (s'.rooted o) :=
    (course_makeInstance run).change (.pushRoot (.object o)) rfl nofun
  have keeps := keeps_setUpAlong (diarist.keeps (s'.rooted o)) o c.chain.reverse
  obtain ⟨more, further⟩ := keeps.state ⟨[], Course.start⟩
  exact ⟨more, rooted.trans further⟩

/-! ### Whole runs -/

/-- **Objects of a class are finalized exactly once.**  Take any course from a new heap.

The objects that are gone have one block each in the diary: the finalizers of their
class chain, most derived first and one after the other, on the private data as the one
before left them.  Together with the objects in the heap they are the ones that were
made, and after the teardown all of them are in the diary, each as often as it was made;
whoever has no class is not.

A collection empties the slots of all that die in it; their blocks are written when the
command returns that ran it.  Operations go on with the course, and set-up callbacks run
base class first until one fails.  A new object counts as made when it is in the heap,
before its set-up and whether or not that succeeds. -/
theorem finalized_exactly_once (diarist : host.Diarist read) {id : HeapId} {limits : Limits}
    {mode : CollectionMode} {holding : List Class} {st : σ} (fresh : read st = [])
    (course : Course host read ⟨new id limits mode, holding, st⟩ made s) :
    let ending := read (letAllGo host.toReclaimer s.heap.remains s.host)
    (∃ gone, Diary gone (read s.host) ∧
      (gone.filterMap Reaped.instance? ++ s.heap.instances).Perm made ∧
      Diary (gone ++ s.heap.remains) ending ∧
      ((gone ++ s.heap.remains).filterMap Reaped.instance?).Perm made) ∧
    (∀ r ∈ s.heap.remains, s.heap.object r.handle = .ok r.object) ∧
    (∀ e ∈ ending, ∃ c, (e.object, c) ∈ made ∧
      ∃ d ∈ c.chain, e.ofClass = d.id ∧ d.callbacks .finalize = some e.finalizer) ∧
    (∀ (h : Heap) (held : ClassId → Bool),
      (h.collect held).reaped = h.reaped ++ h.deadIn held ∧
      ∀ r ∈ h.deadIn held,
        h.object r.handle = .ok r.object ∧ (h.collect held).isValid r.handle = false) ∧
    (∀ (held : ClassId → Bool) (c : Command), c.allocates = true →
      ∃ block, Diary (c.run held s.heap).reaped block ∧
        read (Action.settle host { s with heap := c.run held s.heap }).host =
          read s.host ++ block) ∧
    (∀ {α : Type} (q : Invocation α), ∃ more,
      Course host read ⟨new id limits mode, holding, st⟩ (made ++ more)
        (q.perform host s).2) ∧
    (∀ (c : Class) (data : Option PrivateData),
      match View.makeInstance host c data s with
      | (.error e, s') => View.makeObject host (some c) data s = (.error e, s')
      | (.ok o, s') =>
        Course host read ⟨new id limits mode, holding, st⟩ (made ++ [(o, c)]) s' ∧
        View.makeObject host (some c) data s =
          ((View.setUp host o c (s'.rooted o)).1.map fun _ => o,
            (View.setUp host o c (s'.rooted o)).2) ∧
        ∃ more, Course host read ⟨new id limits mode, holding, st⟩
          (made ++ (o, c) :: more) (View.makeObject host (some c) data s).2) ∧
    ∀ (o : Handle) (c : Class) (t : Session σ), ∃ asked unasked,
      c.chain.reverse.filterMap (fun d => d.callbacks .setUp) = asked ++ unasked ∧
      SetUps host o asked t (View.setUp host o c t) ∧
      ((View.setUp host o c t).1 = .ok () → unasked = []) := by
  intro ending
  have keeps := diarist.toKeepsDiary
  have accounted := course.accounted keeps (accounted_new id limits mode holding fresh)
  obtain ⟨gone, diary, perm⟩ := accounted.gone
  obtain ⟨last, block, noted⟩ := diary_letAllGo keeps s.heap.remains s.host
  have whole : Diary (gone ++ s.heap.remains) ending := by
    show Diary _ (read (letAllGo host.toReclaimer s.heap.remains s.host))
    rw [noted]
    exact diary.append block
  have once : ((gone ++ s.heap.remains).filterMap Reaped.instance?).Perm made := by
    rw [List.filterMap_append]
    exact perm
  refine ⟨⟨gone, diary, perm, whole, once⟩, fun r => object_of_mem_remains, fun e mem => ?_,
    fun h held => ⟨reaped_collect held h, fun r => of_mem_deadIn⟩, fun held c allocates => ?_,
    fun q => ?_, fun c data => ?_, setUps_setUp⟩
  · obtain ⟨r, inDiary, c, ofClass, same, of⟩ := whole.of_mem mem
    refine ⟨c, once.mem_iff.mp (List.mem_filterMap.mpr ⟨r, inDiary, ?_⟩), of⟩
    rw [Reaped.instance?, ofClass, same]
    rfl
  · rw [settle_eq]
    exact diary_letAllGo keeps (c.run held s.heap).reaped s.host
  · obtain ⟨more, further⟩ := course_perform diarist q s
    exact ⟨more, course.trans further⟩
  · rcases run : View.makeInstance host c data s with ⟨e | o, s'⟩
    · exact makeObject_of_failed run
    · have object := makeObject_of_makeInstance run
      obtain ⟨more, further⟩ := course_setUp diarist run
      refine ⟨course.trans (course_makeInstance run), object, more, ?_⟩
      rw [object]
      exact course.trans further

/-! ### A slot used twice -/

/-- A host that notes its finalizers, of which the first takes the private data. -/
def notingHost : Host (List Entry) where
  finalize f o d data es :=
    let left := if f.number = 1 then none else data
    (left, es ++ [⟨f, o, d.id, data, left⟩])
  discard _ es := es
  answer _ r s := (r.unanswered, s)
  holds _ _ := true

/-- The host whose functions run a collection; the third one fails. -/
def notingCollectingHost : Host (List Entry) :=
  { notingHost with
    answer := fun f r s =>
      (if f.number = 3 then .error .notConstructable else r.unanswered,
        (Action.collect notingHost s).2) }

theorem diarist_notingCollectingHost : notingCollectingHost.Diarist id where
  finalize _ _ _ _ _ := rfl
  taken f _ _ _ := by
    show (if f.number = 1 then none else none) = _
    split <;> rfl
  discard _ _ := rfl
  answer _ _ s := by
    show ∃ made, Course notingCollectingHost id s made (Action.collect notingHost s).2
    unfold Action.collect
    rw [allocating_apply]
    exact ⟨_, Course.start.allocate (Action.heldOutside notingHost s) .collect rfl⟩

/-- A class and its parent, both with a finalizer and a set-up callback. -/
def pairedClass : Class where
  own :=
    { id := ⟨1⟩, version := 0, name := Text.ofString "Derived", automatic := false
      values := [], functions := []
      callbacks := fun
        | .finalize => some ⟨1⟩
        | .setUp => some ⟨3⟩
        | _ => none }
  ancestors :=
    [{ id := ⟨0⟩, version := 0, name := Text.ofString "Base", automatic := false
       values := [], functions := []
       callbacks := fun
         | .finalize => some ⟨0⟩
         | .setUp => some ⟨2⟩
         | _ => none }]

/-- The block of an object of the class: what the derived class saw is gone after it. -/
def pairedBlock (o : Handle) (data : Option PrivateData) : List Entry :=
  [⟨⟨1⟩, o, ⟨1⟩, data, none⟩, ⟨⟨0⟩, o, ⟨0⟩, none, none⟩]

/-- A command that may collect, and letting go of what it removed. -/
def noted (s : Session (List Entry)) (c : Command) : Session (List Entry) :=
  Action.settle notingCollectingHost { s with heap := c.run (fun _ => true) s.heap }

/-- An object with private data was collected, and another one is in its slot. -/
def reusedSlot : Session (List Entry) :=
  noted (noted (noted ⟨new ⟨0⟩ .standard .synchronous, [], []⟩
    (.allocInstance pairedClass (some (.word 7)) ⟨⟨0⟩, 0, 0⟩)) .collect)
    (.allocInstance pairedClass none ⟨⟨0⟩, 0, 0⟩)

/-- While a third object is set up, the base class runs a collection, in which the
second one dies, and the derived class fails.  The third one is finalized at the
teardown. -/
theorem finalized_exactly_once_reusedSlot :
    let third := View.makeObject notingCollectingHost (some pairedClass) none reusedSlot
    (∃ gone, Diary gone reusedSlot.host ∧
      (gone.filterMap Reaped.instance? ++ reusedSlot.heap.instances).Perm
        [(⟨⟨0⟩, 2, 0⟩, pairedClass), (⟨⟨0⟩, 2, 1⟩, pairedClass)]) ∧
    reusedSlot.host = pairedBlock ⟨⟨0⟩, 2, 0⟩ (some (.word 7)) ∧
    third.1 = .error .notConstructable ∧
    third.2.host = reusedSlot.host ++ pairedBlock ⟨⟨0⟩, 2, 1⟩ none ∧
    letAllGo notingCollectingHost.toReclaimer third.2.heap.remains third.2.host =
      third.2.host ++ pairedBlock ⟨⟨0⟩, 3, 0⟩ none ∧
    ∃ made o, (o, pairedClass) ∈ made ∧ Course notingCollectingHost id
      ⟨new ⟨0⟩ .standard .synchronous, [], []⟩ made third.2 := by
  intro third
  let older := Command.allocInstance pairedClass (some (.word 7)) ⟨⟨0⟩, 0, 0⟩
  let newer := Command.allocInstance pairedClass none ⟨⟨0⟩, 0, 0⟩
  let fresh : Session (List Entry) := ⟨new ⟨0⟩ .standard .synchronous, [], []⟩
  let collected := noted (noted fresh older) .collect
  have first : older.instances (fun _ => true) fresh.heap = [(⟨⟨0⟩, 2, 0⟩, pairedClass)] :=
    instances_allocInstance (by decide +kernel)
  have second : newer.instances (fun _ => true) collected.heap =
      [(⟨⟨0⟩, 2, 1⟩, pairedClass)] := instances_allocInstance (by decide +kernel)
  have both : Course notingCollectingHost id fresh _ reusedSlot :=
    ((Course.start.allocate (fun _ => true) older rfl).allocate (fun _ => true)
      .collect rfl).allocate (fun _ => true) newer rfl
  change Course _ _ _ (([] ++ older.instances (fun _ => true) fresh.heap ++ []) ++
    newer.instances (fun _ => true) collected.heap) _ at both
  rw [first, second] at both
  obtain ⟨⟨gone, diary, perm, -⟩, -, -, -, -, -, making, -⟩ :=
    finalized_exactly_once diarist_notingCollectingHost rfl both
  refine ⟨⟨gone, diary, perm⟩, by decide +kernel, by decide +kernel, by decide +kernel,
    by decide +kernel, ?_⟩
  have made := making pairedClass none
  have makes :
      (View.makeInstance notingCollectingHost pairedClass none reusedSlot).1.isOk = true := by
    decide +kernel
  rcases run : View.makeInstance notingCollectingHost pairedClass none reusedSlot with
    ⟨e | o, s'⟩
  · rw [run] at makes
    cases makes
  · rw [run] at made
    obtain ⟨-, -, more, course⟩ := made
    exact ⟨_, o, by simp, course⟩

end HostObjects
