import HostObjects.Proofs.Heap.Counts
import HostObjects.Proofs.Heap.Footprint

/-!
# Operations that fail

An operation on a heap checks its operands, makes room and then writes.  A collection may
run between the checks and the write, and it may take the very object that is about to be
written, so an operation can fail even after room was made for it.  What a failure leaves
is still one of two heaps: the one there was, or what one collection makes of it
(`Swept`).

`Clean` is the contract that says so.  It goes through readings, and the one write that
follows an allocation is `clean_change_after_makeRoom`: the target was there before, so if
it is gone a collection took it, and that collection is all that has happened.  What
collections leave alone is `undisturbed_collect`.
-/

namespace HostObjects.Heap

variable {h h' : Heap} {held : ClassId → Bool} {α β : Type}

/-! ### Attempts -/

/-- An operation on a heap that may fail, with the type of its answer. -/
inductive Attempt : Type → Type
  | defineOwn (o : Handle) (p : Property) : Attempt Unit
  | putOwn (o : Handle) (p : Property) : Attempt Bool
  | deleteOwn (o : Handle) (name : Text) : Attempt Bool
  | setPrototype (o : Handle) (p : Option Handle) : Attempt Unit
  | allocPlain : Attempt Handle
  | pin (v : Value) : Attempt Unit
  | addEdge (owner target : Node) : Attempt Unit

/-- The operation. -/
def Attempt.run (held : ClassId → Bool) : Attempt α → HeapM α
  | defineOwn o p => Heap.defineOwn held o p
  | putOwn o p => Heap.putOwn held o p
  | deleteOwn o name => Heap.deleteOwn o name
  | setPrototype o p => Heap.setPrototype o p
  | allocPlain => Heap.allocPlain held
  | pin v => Heap.pin v
  | addEdge owner target => Heap.addEdge owner target

/-- The heap as it was, or as a collection leaves it. -/
def Swept (held : ClassId → Bool) (h h' : Heap) : Prop := h' = h ∨ h' = h.collect held

/-- Whatever an operation does to the heap when it answers, all it does when it fails is a
collection. -/
def Clean (held : ClassId → Bool) (h : Heap) (act : HeapM α) : Prop :=
  Meets (· = h) act (fun _ _ => True) (Swept held h)

variable {act : HeapM α}

/-- An operation is clean if it changes nothing when it fails. -/
theorem clean_of_unchanged (unchanged : (act h).1.isOk = false → (act h).2 = h) :
    Clean held h act := by
  rintro h rfl
  refine ⟨fun _ _ _ => trivial, fun e h' run => ?_⟩
  rw [run] at unchanged
  exact Or.inl (unchanged rfl)

namespace Clean

/-- A reading that fails leaves the heap alone, and one that does not leaves it to what
follows. -/
theorem reading_bind {f : Heap → Except Fault α} {next : α → HeapM β}
    (rest : ∀ a, f h = .ok a → Clean held h (next a)) :
    Clean held h (Heap.reading f >>= next) := by
  have read : Meets (· = h) (Heap.reading f) (fun a h' => h' = h ∧ f h' = .ok a)
      (Swept held h) :=
    (meets_reading f).imp (fun _ same => same) (fun _ _ both => both) fun _ => Or.inl
  refine read.bind fun a => ?_
  rintro h₁ ⟨same, found⟩
  rw [same] at found
  exact rest a found h₁ same

/-- An answer is computed without a failure. -/
theorem bind_pure (clean : Clean held h act) (b : β) :
    Clean held h (act >>= fun _ => Pure.pure b) :=
  Meets.bind clean fun _ => Meets.pure fun _ _ => trivial

end Clean

/-! ### Making room and writing -/

theorem clean_change (o : Handle) (f : HostObject → HostObject) :
    Clean held h (change o f) := by
  refine clean_of_unchanged fun failed => ?_
  unfold change at failed ⊢
  split
  · next found =>
      rw [found] at failed
      cases failed
  · rfl

/-- Either room is made and all objects are where they were, or a collection ran.  A heap
that refuses room leaves no collection due. -/
theorem meets_makeRoom (held : ClassId → Bool) (h : Heap) (bytes : Nat) :
    Meets (· = h) (makeRoom held bytes)
      (fun _ h' => h'.object = h.object ∨ h' = h.collect held) (Swept held h) := by
  rintro h rfl
  refine ⟨fun _ h' run => ?_, fun e h' run => ?_⟩
  · have state := makeRoom_state held bytes h
    rw [run] at state
    rcases state with same | due | collected
    · exact Or.inl (congrArg Heap.object same)
    · exact Or.inl (congrArg Heap.object due :)
    · exact Or.inr collected
  · have state : (makeRoom held bytes h).2 = h' := congrArg Prod.snd run
    cases mode : h.mode with
    | synchronous =>
        rw [makeRoom_of_synchronous mode, verdict_snd] at state
        split at state
        · exact Or.inr state.symm
        · exact Or.inl state.symm
    | deferred =>
        rw [makeRoom_of_deferred mode] at run state
        by_cases full : h.limits.maxBytes < h.used + bytes
        · rw [if_pos full, verdict_snd] at state
          exact Or.inr state.symm
        · -- There is room, and scheduling a collection takes none away.
          rw [if_neg full] at run
          split at run <;> rw [verdict, if_neg full] at run <;> cases run

/-- An object that was there before room was made is gone only if it was collected. -/
theorem clean_change_after_makeRoom {o : Handle} (valid : h.isValid o = true) (bytes : Nat)
    (f : HostObject → HostObject) :
    Clean held h (makeRoom held bytes >>= fun _ => change o f) := by
  refine (meets_makeRoom held h bytes).bind fun _ h₁ state => ?_
  refine ⟨fun _ _ _ => trivial, fun e h' run => ?_⟩
  obtain ⟨obj, found⟩ := isValid_iff.mp valid
  unfold change at run
  rcases state with same | rfl
  · rw [same, found] at run
    cases run
  · split at run
    · cases run
    · cases run
      exact Or.inr rfl

/-! ### Operations -/

theorem isValid_of_ownProperty {o : Handle} {name : Text} {found : Option Property}
    (read : h.ownProperty o name = .ok found) : h.isValid o = true :=
  isValid_of_map_object read

theorem clean_defineOwn (o : Handle) (p : Property) : Clean held h (defineOwn held o p) := by
  refine Clean.reading_bind fun _ _ => Clean.reading_bind fun old read => ?_
  cases old with
  | some _ => exact clean_change o (withUpdated p)
  | none =>
      exact clean_change_after_makeRoom (isValid_of_ownProperty read) _ (withAdded p)

theorem clean_putOwn (o : Handle) (p : Property) : Clean held h (putOwn held o p) := by
  refine Clean.reading_bind fun _ _ => Clean.reading_bind fun old _ => ?_
  cases old with
  | some old =>
      refine Meets.ite (fun _ => Meets.pure fun _ _ => trivial) fun _ => ?_
      exact (clean_change o _).bind_pure true
  | none => exact (clean_defineOwn o p).bind_pure true

theorem clean_deleteOwn (o : Handle) (name : Text) : Clean held h (deleteOwn o name) := by
  refine Clean.reading_bind fun old _ => ?_
  cases old with
  | none => exact Meets.pure fun _ _ => trivial
  | some old =>
      refine Meets.ite (fun _ => Meets.pure fun _ _ => trivial) fun _ => ?_
      exact (clean_change o (withRemoved name)).bind_pure true

theorem clean_setPrototype (o : Handle) (p : Option Handle) :
    Clean held h (setPrototype o p) :=
  Clean.reading_bind fun _ _ => Clean.reading_bind fun _ _ => clean_change o _

theorem clean_alloc (obj : HostObject) : Clean held h (alloc held obj) := by
  refine (meets_makeRoom held h obj.size).bind fun _ h₁ _ => ?_
  refine ⟨fun _ _ _ => trivial, fun e h' run => ?_⟩
  cases run

theorem clean_allocPlain : Clean held h (allocPlain held) := by
  intro h₁ same
  rw [allocPlain_apply]
  exact clean_alloc _ h₁ same

theorem clean_pin (v : Value) : Clean held h (pin v) := by
  refine clean_of_unchanged fun failed => ?_
  cases v with
  | object o =>
      rcases pin_cases h o with ⟨answered, -⟩ | ⟨-, same⟩
      · rw [answered] at failed
        cases failed
      · exact same
  | _ => rfl

theorem clean_addEdge (owner target : Node) : Clean held h (addEdge owner target) := by
  refine clean_of_unchanged fun failed => ?_
  rcases addEdge_cases h owner target with ⟨answered, -⟩ | ⟨-, same⟩
  · rw [answered] at failed
    cases failed
  · exact same

/-- **Nothing is written before the last step that can fail.** -/
theorem Attempt.clean (a : Attempt α) : Clean held h (a.run held) := by
  cases a with
  | defineOwn o p => exact clean_defineOwn o p
  | putOwn o p => exact clean_putOwn o p
  | deleteOwn o name => exact clean_deleteOwn o name
  | setPrototype o p => exact clean_setPrototype o p
  | allocPlain => exact clean_allocPlain
  | pin v => exact clean_pin v
  | addEdge owner target => exact clean_addEdge owner target

/-! ### What collections leave alone -/

/-- The objects that are still there are as they were, with their properties, their
prototype and their private data, and so are all roots, all pins and all edges between
what is still there. -/
structure Undisturbed (h h' : Heap) : Prop where
  object : ∀ o obj, h'.object o = .ok obj → h.object o = .ok obj
  stack : h'.stack = h.stack
  roots : h'.roots = h.roots
  freeRoots : h'.freeRoots = h.freeRoots
  pins : h'.pins = h.pins
  hostRoots : h'.hostRoots = h.hostRoots
  edgeCount : ∀ a b, h'.IsPresent a → h'.IsPresent b → h'.edgeCount a b = h.edgeCount a b

theorem Undisturbed.refl (h : Heap) : Undisturbed h h :=
  ⟨fun _ _ found => found, rfl, rfl, rfl, rfl, rfl, fun _ _ _ _ => rfl⟩

theorem keepsNode_of_isPresent {n : Node} (present : h.IsPresent n) :
    h.keepsNode n = true := by
  cases n with
  | object o =>
      have valid : h.isValid o = true := present
      rw [keepsNode, valid, Bool.or_true]
  | host k => rfl

theorem undisturbed_collect (ok : Intact h) (held : ClassId → Bool) :
    Undisturbed h (h.collect held) where
  object _ _ found := (object_of_object_collect ok found).1
  stack := rfl
  roots := rfl
  freeRoots := rfl
  pins := rfl
  hostRoots := rfl
  edgeCount a b first second := by
    have counts : (h.collect held).edgeCount a b =
        if (h.collect held).keepsNode a && (h.collect held).keepsNode b then h.edgeCount a b
        else 0 := EdgeTable.count_retain _ h.edges a b
    rw [counts, keepsNode_of_isPresent first, keepsNode_of_isPresent second]
    rfl

/-- **A failure writes nothing.**  Whichever operation fails on a reachable heap, every
object that is still there is the object it was, and roots, pins, host roots and the
counts of edges between what is still there are as they were.  If the heap is not the one
there was, it is what a collection makes of it, and the objects that are gone are those
that nothing kept alive. -/
theorem failure_writes_nothing (reachable : Reachable h) {a : Attempt α} {e : Fault}
    (failed : (a.run held h).1 = .error e) :
    Undisturbed h (a.run held h).2 ∧
      ((a.run held h).2 = h ∨
        (a.run held h).2 = h.collect held ∧
          ∀ o, h.isValid o = true →
            ((a.run held h).2.isValid o = true ↔ Alive held h (.object o))) := by
  have ok := reachable.intact
  rcases run : a.run held h with ⟨r, h'⟩
  rw [run] at failed
  cases failed
  rcases (a.clean h rfl).2 e h' run with rfl | rfl
  · exact ⟨Undisturbed.refl h', Or.inl rfl⟩
  · refine ⟨undisturbed_collect ok held, Or.inr ⟨rfl, fun o valid => ?_⟩⟩
    rw [isValid_collect_iff ok]
    exact and_iff_right valid

/-- A heap at its threshold: an object that is pinned, with a property, and one that
nothing keeps alive. -/
def unguarded : Heap :=
  after (new ⟨0⟩ ⟨100000, 560⟩ .synchronous)
    (turnsOf [.allocPlain, .pin (.object ⟨⟨0⟩, 2, 0⟩), .allocPlain,
      .defineOwn ⟨⟨0⟩, 2, 0⟩ ⟨Text.ofString "a", .null, .none⟩])

/-- The collection that makes room for its first property takes the object. -/
theorem failure_writes_nothing_unguarded :
    Undisturbed unguarded
      (defineOwn (fun _ => false) ⟨⟨0⟩, 3, 0⟩ ⟨Text.ofString "b", .null, .none⟩ unguarded).2 ∧
    (defineOwn (fun _ => false) ⟨⟨0⟩, 3, 0⟩ ⟨Text.ofString "b", .null, .none⟩
      unguarded).2.isValid ⟨⟨0⟩, 3, 0⟩ = false := by
  have reachable : Reachable unguarded := (Reachable.new _ _ _).after _
  have failed : (defineOwn (fun _ => false) ⟨⟨0⟩, 3, 0⟩ ⟨Text.ofString "b", .null, .none⟩
      unguarded).1 = .error .staleHandle := by decide +kernel
  exact ⟨(failure_writes_nothing reachable
    (a := .defineOwn ⟨⟨0⟩, 3, 0⟩ ⟨Text.ofString "b", .null, .none⟩) failed).1,
    by decide +kernel⟩

end HostObjects.Heap
