import HostObjects.Proofs.Heap.Relink
import HostObjects.Proofs.View.Enumerate
import HostObjects.Proofs.View.Search

/-!
# Walks along links that change

The visits of a walk may do anything, so the links that it goes on to read need not be those
that were there when it set out, and nothing about the heap bounds it.  What it remembers does.
`GotTo` is the course of a walk up to the object that it looks at next, and `Ended` how it ends:
it has been at no object twice and at `maxPrototypeChain` objects at most
(`GotTo.nodup_and_length_le`), so it cannot go on for ever (`exists_ended`).  One object too
many, or one that it has been at before, ends it where it stands: nothing is asked about that
object.

As long as the links are those of the heap that the operation was called in, the walk keeps to
the chain (`GotTo.along`), and so meets no object again.  A `prototypeCycle` then is the fault
of a visit and never a finding of the walk (`guarded_of_chain`).
-/

namespace HostObjects

open Heap

variable {σ α β : Type} {visit : β → Handle → Action σ (α ⊕ β)} {start acc acc' : β}
  {first next : Option Handle} {s t t' : Session σ} {visited processed chain : List Handle}
  {o p f proto : Handle} {h : Heap} {r : Except Fault (α ⊕ β)} {host : Host σ} {name : Text}

/-! ### The course of a walk -/

/-- The course of a walk up to an object that it is about to look at, or to the end of the chain:
the objects it has been at in order, what the last of them handed on, where its link led, and
the session. -/
inductive GotTo (visit : β → Handle → Action σ (α ⊕ β)) (start : β) (first : Option Handle)
    (s : Session σ) : List Handle → β → Option Handle → Session σ → Prop
  | start : GotTo visit start first s [] start first s
  | onward {visited : List Handle} {acc acc' : β} {o : Handle} {next : Option Handle}
      {t t' : Session σ} (before : GotTo visit start first s visited acc (some o) t)
      (room : visited.length < maxPrototypeChain) (new : o ∉ visited)
      (pass : visit acc o t = (.ok (.inr acc'), t')) (link : t'.heap.prototype o = .ok next) :
      GotTo visit start first s (visited ++ [o]) acc' next t'

/-- The end of a walk: the objects it has been at in order, its result and the session.  In the
second and the third case, the object that it looked at last is none of them. -/
inductive Ended (visit : β → Handle → Action σ (α ⊕ β)) (start : β) (first : Option Handle)
    (s : Session σ) : List Handle → Except Fault (α ⊕ β) → Session σ → Prop
  | exhausted {visited : List Handle} {acc : β} {t : Session σ}
      (got : GotTo visit start first s visited acc none t) :
      Ended visit start first s visited (.ok (.inr acc)) t
  | tooDeep {visited : List Handle} {acc : β} {o : Handle} {t : Session σ}
      (got : GotTo visit start first s visited acc (some o) t)
      (full : visited.length = maxPrototypeChain) :
      Ended visit start first s visited (.error .prototypeChainTooDeep) t
  | again {visited : List Handle} {acc : β} {o : Handle} {t : Session σ}
      (got : GotTo visit start first s visited acc (some o) t)
      (room : visited.length < maxPrototypeChain) (seen : o ∈ visited) :
      Ended visit start first s visited (.error .prototypeCycle) t
  | answers {visited : List Handle} {acc : β} {o : Handle} {t t' : Session σ} {a : α}
      (got : GotTo visit start first s visited acc (some o) t)
      (room : visited.length < maxPrototypeChain) (new : o ∉ visited)
      (answer : visit acc o t = (.ok (.inl a), t')) :
      Ended visit start first s (visited ++ [o]) (.ok (.inl a)) t'
  | fails {visited : List Handle} {acc : β} {o : Handle} {t t' : Session σ} {e : Fault}
      (got : GotTo visit start first s visited acc (some o) t)
      (room : visited.length < maxPrototypeChain) (new : o ∉ visited)
      (failure : visit acc o t = (.error e, t')) :
      Ended visit start first s (visited ++ [o]) (.error e) t'
  | gone {visited : List Handle} {acc acc' : β} {o : Handle} {t t' : Session σ} {e : Fault}
      (got : GotTo visit start first s visited acc (some o) t)
      (room : visited.length < maxPrototypeChain) (new : o ∉ visited)
      (pass : visit acc o t = (.ok (.inr acc'), t')) (dead : t'.heap.prototype o = .error e) :
      Ended visit start first s (visited ++ [o]) (.error e) t'

/-- Another object that there is room for. -/
theorem nodup_and_length_le_snoc (nodup : visited.Nodup) (new : o ∉ visited)
    (room : visited.length < maxPrototypeChain) :
    (visited ++ [o]).Nodup ∧ (visited ++ [o]).length ≤ maxPrototypeChain := by
  refine ⟨List.nodup_append.mpr ⟨nodup, List.nodup_singleton o, fun p mem q last same => ?_⟩, ?_⟩
  · rw [List.mem_singleton.mp last] at same
    exact new (same ▸ mem)
  · rw [List.length_append, List.length_singleton]
    exact room

/-- What a walk does at an object that it has not been at. -/
theorem walk_of_fresh {seen : Std.HashSet Handle} (fresh : o ∉ seen) (budget : Nat) :
    walk visit (budget + 1) seen acc (some o) t =
      match visit acc o t with
      | (.ok (.inr acc'), t') =>
        match t'.heap.prototype o with
        | .ok next => walk visit budget (seen.insert o) acc' next t'
        | .error e => (.error e, t')
      | (.ok (.inl a), t') => (.ok (.inl a), t')
      | (.error e, t') => (.error e, t') := by
  have unmet : seen.contains o = false := Bool.eq_false_iff.mpr fresh
  rw [walk, unmet]
  show (visit acc o >>= _) t = _
  rw [bind_apply]
  rcases visit acc o t with ⟨e | a | acc', t'⟩
  · rfl
  · rfl
  · show (Action.reading (fun h => h.prototype o) >>= _) t' = _
    rw [bind_apply]
    dsimp only [Action.reading]
    cases t'.heap.prototype o <;> rfl

namespace GotTo

/-- **A walk has been at no object twice**, and at no more than it may. -/
theorem nodup_and_length_le (got : GotTo visit start first s visited acc next t) :
    visited.Nodup ∧ visited.length ≤ maxPrototypeChain := by
  induction got with
  | start => exact ⟨List.nodup_nil, Nat.zero_le _⟩
  | onward _ room new _ _ ih => exact nodup_and_length_le_snoc ih.1 new room

/-- **The rest of a walk is a walk** from where it got to, with what it remembers and the
budget that is left. -/
theorem walkFrom_eq (got : GotTo visit start first s visited acc next t) :
    ∃ seen : Std.HashSet Handle, (∀ p, p ∈ seen ↔ p ∈ visited) ∧
      walkFrom visit start first s =
        walk visit (maxPrototypeChain - visited.length) seen acc next t := by
  induction got with
  | start => exact ⟨∅, by simp, rfl⟩
  | @onward visited acc acc' o next t t' _ room new pass link ih =>
      obtain ⟨seen, same, run⟩ := ih
      have left : maxPrototypeChain - visited.length =
          maxPrototypeChain - (visited ++ [o]).length + 1 := by
        rw [List.length_append, List.length_singleton]
        omega
      refine ⟨seen.insert o, fun p => ?_, ?_⟩
      · rw [Std.HashSet.mem_insert, beq_iff_eq, same, List.mem_append, List.mem_singleton,
          or_comm, eq_comm]
      · rw [run, left, walk_of_fresh (mt (same o).mp new), pass]
        simp only [link]

/-- At an object that there is room for, and that it has not been at, the walk is what the visit
makes of it and the walk that may follow. -/
theorem walkFrom_of_fresh (got : GotTo visit start first s visited acc (some o) t)
    (room : visited.length < maxPrototypeChain) (new : o ∉ visited) :
    ∃ budget seen, walkFrom visit start first s =
      match visit acc o t with
      | (.ok (.inr acc'), t') =>
        match t'.heap.prototype o with
        | .ok next => walk visit budget seen acc' next t'
        | .error e => (.error e, t')
      | (.ok (.inl a), t') => (.ok (.inl a), t')
      | (.error e, t') => (.error e, t') := by
  obtain ⟨seen, same, run⟩ := got.walkFrom_eq
  obtain ⟨budget, left⟩ := Nat.exists_eq_succ_of_ne_zero (Nat.sub_ne_zero_of_lt room)
  exact ⟨budget, seen.insert o, by rw [run, left, walk_of_fresh (mt (same o).mp new)]⟩

end GotTo

/-- The objects that a walk has been at when it ends are as few as those on the way. -/
theorem Ended.nodup_and_length_le (ended : Ended visit start first s processed r t) :
    processed.Nodup ∧ processed.length ≤ maxPrototypeChain := by
  cases ended with
  | exhausted got | tooDeep got | again got => exact got.nodup_and_length_le
  | answers got room new | fails got room new | gone got room new =>
      exact nodup_and_length_le_snoc got.nodup_and_length_le.1 new room

/-- **A walk that ends has this result.** -/
theorem Ended.walkFrom_eq (ended : Ended visit start first s processed r t) :
    walkFrom visit start first s = (r, t) := by
  cases ended with
  | exhausted got =>
      obtain ⟨seen, -, run⟩ := got.walkFrom_eq
      rw [run]
      cases maxPrototypeChain - processed.length <;> rfl
  | tooDeep got full =>
      obtain ⟨seen, -, run⟩ := got.walkFrom_eq
      rw [run, full, Nat.sub_self]
      rfl
  | again got room seen =>
      obtain ⟨set, same, run⟩ := got.walkFrom_eq
      obtain ⟨budget, left⟩ := Nat.exists_eq_succ_of_ne_zero (Nat.sub_ne_zero_of_lt room)
      have met : set.contains _ = true := (same _).mpr seen
      rw [run, left, walk, met]
      rfl
  | answers got room new answer =>
      obtain ⟨budget, seen, run⟩ := got.walkFrom_of_fresh room new
      rw [run, answer]
  | fails got room new failure =>
      obtain ⟨budget, seen, run⟩ := got.walkFrom_of_fresh room new
      rw [run, failure]
  | gone got room new pass dead =>
      obtain ⟨budget, seen, run⟩ := got.walkFrom_of_fresh room new
      rw [run, pass]
      simp only [dead]

/-- From wherever a walk gets to, it comes to an end: each step takes it nearer to the bound. -/
theorem GotTo.exists_ended (got : GotTo visit start first s visited acc next t) :
    ∃ processed r t', Ended visit start first s processed r t' := by
  generalize left : maxPrototypeChain - visited.length = budget
  induction budget generalizing visited acc next t with
  | zero =>
      have full : visited.length = maxPrototypeChain :=
        Nat.le_antisymm got.nodup_and_length_le.2 (Nat.sub_eq_zero_iff_le.mp left)
      cases next with
      | none => exact ⟨_, _, _, .exhausted got⟩
      | some o => exact ⟨_, _, _, .tooDeep got full⟩
  | succ budget ih =>
      have room : visited.length < maxPrototypeChain := Nat.lt_of_sub_eq_succ left
      cases next with
      | none => exact ⟨_, _, _, .exhausted got⟩
      | some o =>
          by_cases seen : o ∈ visited
          · exact ⟨_, _, _, .again got room seen⟩
          rcases run : visit acc o t with ⟨e | a | acc', t'⟩
          · exact ⟨_, _, _, .fails got room seen run⟩
          · exact ⟨_, _, _, .answers got room seen run⟩
          cases link : t'.heap.prototype o with
          | error e => exact ⟨_, _, _, .gone got room seen run link⟩
          | ok next =>
              refine ih (.onward got room seen run link) ?_
              rw [List.length_append, List.length_singleton]
              omega

/-- **A walk ends**, whatever its visits do. -/
theorem exists_ended (visit : β → Handle → Action σ (α ⊕ β)) (start : β) (first : Option Handle)
    (s : Session σ) : ∃ processed r t, Ended visit start first s processed r t :=
  GotTo.start.exists_ended

/-! ### Links that stay -/

/-- An object of both heaps has the same prototype in both. -/
def Heap.SameLinks (h h' : Heap) : Prop :=
  ∀ p link link', h.prototype p = .ok link → h'.prototype p = .ok link' → link' = link

/-- The objects to which links lead from a first one, if there is one. -/
def Heap.ChainFrom (h : Heap) : Option Handle → List Handle → Prop
  | none, chain => chain = []
  | some o, chain => PrototypeChain h o chain

theorem Heap.ChainFrom.nodup (chained : h.ChainFrom first chain) : chain.Nodup := by
  cases first with
  | none => exact (show chain = [] from chained) ▸ List.nodup_nil
  | some o => exact PrototypeChain.nodup chained

/-- Behind its first object, a chain is that to which the link of the object leads. -/
theorem Heap.ChainFrom.tail (chained : h.ChainFrom (some o) chain) :
    ∃ link rest, chain = o :: rest ∧ h.prototype o = .ok link ∧ h.ChainFrom link rest := by
  cases (show PrototypeChain h o chain from chained) with
  | last found => exact ⟨none, [], rfl, found, rfl⟩
  | link found rest => exact ⟨some _, _, rfl, found, rest⟩

/-- **A walk keeps to the chain while the links stay**: what is left of the chain starts with
the object that it looks at next. -/
theorem GotTo.along (got : GotTo visit start first s visited acc next t)
    (same : ∀ visited acc next t, GotTo visit start first s visited acc next t →
      SameLinks h t.heap)
    (chained : h.ChainFrom first chain) :
    ∃ rest, chain = visited ++ rest ∧ h.ChainFrom next rest := by
  induction got with
  | start => exact ⟨chain, rfl, chained⟩
  | onward before room new pass link ih =>
      obtain ⟨rest, split, there⟩ := ih
      obtain ⟨old, rest, rfl, found, behind⟩ := there.tail
      obtain rfl := same _ _ _ _ (.onward before room new pass link) _ _ _ found link
      exact ⟨rest, by rw [split, List.append_assoc]; rfl, behind⟩

/-- While the links stay, a walk comes to no object again. -/
theorem GotTo.not_mem (got : GotTo visit start first s visited acc (some o) t)
    (same : ∀ visited acc next t, GotTo visit start first s visited acc next t →
      SameLinks h t.heap)
    (chained : h.ChainFrom first chain) : o ∉ visited := by
  obtain ⟨rest, rfl, there⟩ := got.along same chained
  obtain ⟨_, rest, rfl, -, -⟩ := there.tail
  intro mem
  exact (List.disjoint_of_nodup_append chained.nodup) mem List.mem_cons_self

/-! ### Guarded walks -/

/-- A walk in an operation called in a heap comes to an end whatever its visits do, and what it
remembers keeps it from going round: it has been at no object twice and at no more than it may,
and an object that would be is refused where the walk stands, without a visit.  If the links of
the heap stay, a `prototypeCycle` is the fault of one of its visits. -/
structure Guarded (h : Heap) (visit : β → Handle → Action σ (α ⊕ β)) (start : β)
    (first : Option Handle) (s : Session σ) : Prop where
  ends : ∃ processed r t, Ended visit start first s processed r t ∧
    walkFrom visit start first s = (r, t) ∧
    processed.Nodup ∧ processed.length ≤ maxPrototypeChain
  refuses : ∀ visited acc o t, GotTo visit start first s visited acc (some o) t →
    (visited.length = maxPrototypeChain →
      walkFrom visit start first s = (.error .prototypeChainTooDeep, t)) ∧
    (visited.length < maxPrototypeChain → o ∈ visited →
      walkFrom visit start first s = (.error .prototypeCycle, t))
  straight : (∀ visited acc next t, GotTo visit start first s visited acc next t →
      SameLinks h t.heap) →
    ∀ t', walkFrom visit start first s = (.error .prototypeCycle, t') →
      ∃ visited acc o t, GotTo visit start first s visited acc (some o) t ∧ o ∉ visited ∧
        visit acc o t = (.error .prototypeCycle, t')

/-- A link that cannot be read is that of an object that is gone, which is no cycle. -/
theorem prototype_ne_cycle (h : Heap) (o : Handle) : h.prototype o ≠ .error .prototypeCycle := by
  cases valid : h.isValid o with
  | true =>
      obtain ⟨obj, found⟩ := isValid_iff.mp valid
      rw [Heap.prototype, found]
      intro cycle
      cases cycle
  | false =>
      rw [Heap.prototype, map_object_of_invalid valid, rejection]
      intro cycle
      split at cycle <;> cases cycle

/-- **Walks are guarded**, if the links of the heap lead to an end. -/
theorem guarded_of_chain (chained : SameLinks h s.heap → ∃ chain, h.ChainFrom first chain) :
    Guarded h visit start first s where
  ends := by
    obtain ⟨processed, r, t, ended⟩ := exists_ended visit start first s
    exact ⟨processed, r, t, ended, ended.walkFrom_eq, ended.nodup_and_length_le⟩
  refuses _ _ _ _ got :=
    ⟨fun full => (Ended.tooDeep got full).walkFrom_eq,
      fun room seen => (Ended.again got room seen).walkFrom_eq⟩
  straight same t' cycle := by
    obtain ⟨chain, chained⟩ := chained (same _ _ _ _ .start)
    obtain ⟨processed, r, t, ended⟩ := exists_ended visit start first s
    obtain ⟨rfl, rfl⟩ := Prod.mk.inj (ended.walkFrom_eq.symm.trans cycle)
    cases ended with
    | again got room seen => exact absurd seen (got.not_mem same chained)
    | fails got room new failure => exact ⟨_, _, _, _, got, new, failure⟩
    | gone got room new pass dead => exact absurd dead (prototype_ne_cycle _ _)

/-! ### The operations that walk -/

/-- The session at the end of an operation that was called at a height of the stack. -/
def Session.cutTo (t : Session σ) (height : Nat) : Session σ :=
  t.withHeap (t.heap.cutStack height)

theorem hasProperty_eq_walk (valid : s.heap.isValid o = true) :
    View.hasProperty host o name s =
      match walkFrom (visitHas host name) () (some o) (s.on o) with
      | (r, t) => (r.map Sum.isLeft, t.cutTo s.heap.stack.size) := by
  have form : View.hasProperty host o name = _ :=
    (Invocation.has o name).perform_eq_withOperands rfl
  have body : Invocation.body host (.has o name)
      (s.withHeap (s.heap.rootAll (Invocation.has o name).operands)) =
        (walkFrom (visitHas host name) () (some o) >>= fun found => pure found.isLeft) (s.on o) :=
    rfl
  rw [form, withOperands_apply valid, body, bind_apply]
  rcases walkFrom (visitHas host name) () (some o) (s.on o) with ⟨_ | _, t⟩ <;> rfl

theorem getProperty_eq_walk (valid : s.heap.isValid o = true) :
    View.getProperty host o name s =
      match walkFrom (visitValue host name) () (some o) (s.on o) with
      | (.ok (.inl v), t) =>
        (.ok v, t.withHeap ((t.heap.cutStack s.heap.stack.size).withResult (some v)))
      | (.ok (.inr ()), t) => (.ok .undefined, t.cutTo s.heap.stack.size)
      | (.error e, t) => (.error e, t.cutTo s.heap.stack.size) := by
  have form : View.getProperty host o name = _ :=
    (Invocation.get o name).perform_eq_withOperands rfl
  have body : Invocation.body host (.get o name)
      (s.withHeap (s.heap.rootAll (Invocation.get o name).operands)) =
        View.lookUp host o name (s.on o) := rfl
  rw [form, withOperands_apply valid, body, lookUp_apply]
  rcases walkFrom (visitValue host name) () (some o) (s.on o) with ⟨_ | _ | ⟨⟩, t⟩
  · rfl
  · rfl
  · exact congrArg (fun h => (Except.ok Value.undefined, t.withHeap h))
      (t.heap.cutStack s.heap.stack.size).withResult_undefined

theorem propertyNames_eq_walk (valid : s.heap.isValid o = true) :
    View.propertyNames host o s =
      match walkFrom (visitNames host) [] (some o) (s.on o) with
      | (r, t) => (r.map fun | .inr names => View.firstOccurrences names,
          t.cutTo s.heap.stack.size) := by
  have form : View.propertyNames host o = _ :=
    (Invocation.names o).perform_eq_withOperands rfl
  have body : Invocation.body host (.names o)
      (s.withHeap (s.heap.rootAll (Invocation.names o).operands)) =
        (walkFrom (visitNames host) [] (some o) >>= fun
          | .inr names => pure (View.firstOccurrences names)) (s.on o) := rfl
  rw [form, withOperands_apply valid, body, bind_apply]
  rcases walkFrom (visitNames host) [] (some o) (s.on o) with ⟨_ | none | _, t⟩
  · rfl
  · exact none.elim
  · rfl

/-- An instance test that comes to walk from an object: the target is a constructor, no class of
it has a callback for the test, and its `prototype` property is an object. -/
structure View.TestsAlong (host : Host σ) (f o : Handle) (s : Session σ) (c : Option Class)
    (proto : Handle) (t : Session σ) : Prop where
  ofClass : s.heap.classOf f = .ok c
  unasked : View.classCallback? c .hasInstance = none
  constructs : ∃ made construct,
    (s.heap.object f).map HostObject.behaviour = .ok (.constructor made construct)
  read : View.getProperty host f View.prototypeKey
    ((s.withHeap (s.heap.rootAll [.object f, .object o])).hold c.toList) = (.ok (.object proto), t)

theorem hasPrototype_eq_walk (link : t.heap.prototype o = .ok first) :
    View.hasPrototype proto o t =
      match walkFrom (visitPrototype proto) () first t with
      | (r, t') => (r.map Sum.isLeft, t') := by
  show (Action.reading (fun h => h.prototype o) >>= _) t = _
  rw [bind_apply]
  simp only [Action.reading, link]
  show (walkFrom (visitPrototype proto) () first >>= _) t = _
  rw [bind_apply]
  rcases walkFrom (visitPrototype proto) () first t with ⟨_ | _, t'⟩ <;> rfl

/-- A constructor tests for the object that is its `prototype` property. -/
theorem isConstructed_of_read
    (constructs : ∃ made construct,
      (s.heap.object f).map HostObject.behaviour = .ok (.constructor made construct))
    (read : View.getProperty host f View.prototypeKey s = (.ok (.object proto), t)) :
    View.isConstructed host f (.object o) s = View.hasPrototype proto o t := by
  obtain ⟨made, construct, behaves⟩ := constructs
  unfold View.isConstructed View.behaviour
  rw [bind_apply]
  simp only [Action.reading, behaves]
  rw [bind_apply, read]

theorem hasInstanceResolved_of_unasked {c : Option Class} {v : Value}
    (unasked : View.classCallback? c .hasInstance = none) :
    View.hasInstanceResolved host f v c = View.isConstructed host f v := by
  unfold View.hasInstanceResolved
  rw [unasked]

theorem hasInstance_eq_walk {c : Option Class} (tests : View.TestsAlong host f o s c proto t)
    (link : t.heap.prototype o = .ok first) :
    View.hasInstance host f (.object o) s =
      match walkFrom (visitPrototype proto) () first t with
      | (r, t') => (r.map Sum.isLeft, (t'.release s.holding).cutTo s.heap.stack.size) := by
  have valid : s.heap.isValid f = true := isValid_of_map_object tests.ofClass
  -- Rooting the operands changes no object.
  have objects : (s.withHeap (s.heap.rootAll [.object f, .object o])).heap.object =
      s.heap.object := (s.heap.sameTable_rootAll _).object
  have ofClass : (s.withHeap (s.heap.rootAll [.object f, .object o])).heap.classOf f = .ok c := by
    rw [Heap.classOf, objects]
    exact tests.ofClass
  have tested : View.isConstructed host f (.object o)
      ((s.withHeap (s.heap.rootAll [.object f, .object o])).hold c.toList) =
        View.hasPrototype proto o t := by
    refine isConstructed_of_read ?_ tests.read
    show ∃ made construct, ((s.withHeap (s.heap.rootAll [.object f, .object o])).heap.object f).map
      HostObject.behaviour = .ok (.constructor made construct)
    rw [objects]
    exact tests.constructs
  have form : View.hasInstance host f (.object o) = _ :=
    (Invocation.hasInstance f (.object o)).perform_eq_withOperands rfl
  have body : Invocation.body host (.hasInstance f (.object o))
      (s.withHeap (s.heap.rootAll (Invocation.hasInstance f (.object o)).operands)) =
        ((View.hasPrototype proto o t).1,
          (View.hasPrototype proto o t).2.release s.holding) := by
    show View.byClass f (View.hasInstanceResolved host f (.object o))
      (s.withHeap (s.heap.rootAll [.object f, .object o])) = _
    unfold View.byClass
    rw [bind_apply]
    simp only [Action.reading, ofClass]
    rw [holding_apply, hasInstanceResolved_of_unasked tests.unasked, tested]
    rfl
  rw [form, withOperands_apply valid, body, hasPrototype_eq_walk link]
  rcases walkFrom (visitPrototype proto) () first t with ⟨_ | _, t'⟩ <;> rfl

/-- **Walks end, and come to no object twice.**  Called on an object in any state of a run, an
existence test, a look-up, an enumeration and an instance test each walk from the object
guarded, whatever callbacks do. -/
theorem walks_visit_once (id : HeapId) (limits : Limits) (mode : CollectionMode)
    (turns : List Turn) (allowed : AllAllowed (new id limits mode) turns) {s : Session σ}
    (state : s.heap ∈ states (new id limits mode) turns) {o : Handle}
    (valid : s.heap.isValid o = true) (host : Host σ) (name : Text) :
    (Guarded s.heap (visitHas host name) () (some o) (s.on o) ∧
      View.hasProperty host o name s =
        match walkFrom (visitHas host name) () (some o) (s.on o) with
        | (r, t) => (r.map Sum.isLeft, t.cutTo s.heap.stack.size)) ∧
    (Guarded s.heap (visitValue host name) () (some o) (s.on o) ∧
      View.getProperty host o name s =
        match walkFrom (visitValue host name) () (some o) (s.on o) with
        | (.ok (.inl v), t) =>
          (.ok v, t.withHeap ((t.heap.cutStack s.heap.stack.size).withResult (some v)))
        | (.ok (.inr ()), t) => (.ok .undefined, t.cutTo s.heap.stack.size)
        | (.error e, t) => (.error e, t.cutTo s.heap.stack.size)) ∧
    (Guarded s.heap (visitNames host) [] (some o) (s.on o) ∧
      View.propertyNames host o s =
        match walkFrom (visitNames host) [] (some o) (s.on o) with
        | (r, t) => (r.map fun | .inr names => View.firstOccurrences names,
            t.cutTo s.heap.stack.size)) ∧
    ∀ f c proto t first, View.TestsAlong host f o s c proto t →
      t.heap.prototype o = .ok first →
      Guarded s.heap (visitPrototype proto) () first t ∧
        View.hasInstance host f (.object o) s =
          match walkFrom (visitPrototype proto) () first t with
          | (r, t') => (r.map Sum.isLeft, (t'.release s.holding).cutTo s.heap.stack.size) := by
  obtain ⟨chain, walk⟩ :=
    (chained_states (chained_new id limits mode) allowed s.heap state).ends o valid
  have chained : s.heap.ChainFrom (some o) chain := walk
  refine ⟨⟨guarded_of_chain fun _ => ⟨chain, chained⟩, hasProperty_eq_walk valid⟩,
    ⟨guarded_of_chain fun _ => ⟨chain, chained⟩, getProperty_eq_walk valid⟩,
    ⟨guarded_of_chain fun _ => ⟨chain, chained⟩, propertyNames_eq_walk valid⟩,
    fun f c proto t first tests link => ⟨guarded_of_chain fun same => ?_,
      hasInstance_eq_walk tests link⟩⟩
  -- The walk of an instance test sets out from the prototype of the object.
  obtain ⟨first', rest, -, found, behind⟩ := chained.tail
  obtain rfl := same _ _ _ found link
  exact ⟨rest, behind⟩

/-- A host that records the objects that `get` callbacks are asked about, latest first.  Asked
about the second of two linked instances, it turns their link round. -/
def turningHost : Host (List Handle) where
  finalize _ _ _ data asked := (data, asked)
  discard _ asked := asked
  holds _ _ := true
  answer _ r :=
    match r with
    | .get o _ => fun s =>
      (.ok none,
        { s with
          heap :=
            if o = ⟨⟨0⟩, 3, 0⟩ then
              (s.heap.withLink ⟨⟨0⟩, 2, 0⟩ none).withLink ⟨⟨0⟩, 3, 0⟩ (some ⟨⟨0⟩, 2, 0⟩)
            else s.heap
          host := o :: s.host })
    | r => fun s => (r.unanswered, s)

/-- Two instances, the first of which is then linked to the second. -/
def linkedPair : List Turn :=
  [.allocInstance askedClass none ⟨⟨0⟩, 0, 0⟩, .allocInstance askedClass none ⟨⟨0⟩, 0, 0⟩,
    .setPrototype ⟨⟨0⟩, 2, 0⟩ (some ⟨⟨0⟩, 3, 0⟩)].map fun c => ⟨fun _ => true, c⟩

/-- The session after that. -/
def linkedSession : Session (List Handle) where
  heap := ((new ⟨0⟩ .standard .synchronous).after (linkedPair.take 2)).withLink ⟨⟨0⟩, 2, 0⟩
    (some ⟨⟨0⟩, 3, 0⟩)
  holding := []
  host := []

theorem after_linkedPair :
    (new ⟨0⟩ .standard .synchronous).after linkedPair = linkedSession.heap := by
  have con := ((Reachable.new ⟨0⟩ .standard .synchronous).after (linkedPair.take 2)).intact
  have walk : PrototypeChain ((new ⟨0⟩ .standard .synchronous).after (linkedPair.take 2))
      ⟨⟨0⟩, 3, 0⟩ [⟨⟨0⟩, 3, 0⟩, ⟨⟨0⟩, 0, 0⟩] := .link (by decide +kernel) (.last (by decide +kernel))
  obtain ⟨obj, found⟩ := isValid_iff.mp
    (show ((new ⟨0⟩ .standard .synchronous).after (linkedPair.take 2)).isValid ⟨⟨0⟩, 2, 0⟩ = true
      by decide +kernel)
  show (setPrototype ⟨⟨0⟩, 2, 0⟩ (some ⟨⟨0⟩, 3, 0⟩)
    ((new ⟨0⟩ .standard .synchronous).after (linkedPair.take 2))).2 = _
  rw [setPrototype_of_walk found walk (by decide) (by decide)]
  exact store_eq_withLink con.toConsistent found _

/-- A look-up from the first instance asks about both of them, is led back to the first, and ends
without asking about it again. -/
theorem walks_visit_once_turned :
    AllAllowed (new ⟨0⟩ .standard .synchronous) linkedPair ∧
      linkedSession.heap ∈ states (new ⟨0⟩ .standard .synchronous) linkedPair ∧
      linkedSession.heap.isValid ⟨⟨0⟩, 2, 0⟩ = true ∧
      (View.getProperty turningHost ⟨⟨0⟩, 2, 0⟩ (Text.ofString "x") linkedSession).1 =
        .error .prototypeCycle ∧
      (View.getProperty turningHost ⟨⟨0⟩, 2, 0⟩ (Text.ofString "x") linkedSession).2.host =
        [⟨⟨0⟩, 3, 0⟩, ⟨⟨0⟩, 3, 0⟩, ⟨⟨0⟩, 2, 0⟩, ⟨⟨0⟩, 2, 0⟩] := by
  have allowed : AllAllowed (new ⟨0⟩ .standard .synchronous) linkedPair :=
    ⟨⟨fun _ _ => rfl, by decide +kernel⟩, ⟨fun _ _ => rfl, by decide +kernel⟩, trivial, trivial⟩
  have state : linkedSession.heap ∈ states (new ⟨0⟩ .standard .synchronous) linkedPair :=
    after_linkedPair ▸ after_mem_states _ _
  have valid : linkedSession.heap.isValid ⟨⟨0⟩, 2, 0⟩ = true := by decide +kernel
  obtain ⟨-, ⟨guarded, walked⟩, -⟩ := walks_visit_once ⟨0⟩ .standard .synchronous linkedPair allowed
    state valid turningHost (Text.ofString "x")
  have first : GotTo (visitValue turningHost (Text.ofString "x")) () (some ⟨⟨0⟩, 2, 0⟩)
      (linkedSession.on ⟨⟨0⟩, 2, 0⟩) ([] ++ [⟨⟨0⟩, 2, 0⟩]) () (some ⟨⟨0⟩, 3, 0⟩) _ :=
    .onward .start (by decide) List.not_mem_nil (Prod.ext (by decide +kernel) rfl)
      (by decide +kernel)
  have second : GotTo (visitValue turningHost (Text.ofString "x")) () (some ⟨⟨0⟩, 2, 0⟩)
      (linkedSession.on ⟨⟨0⟩, 2, 0⟩) ([] ++ [⟨⟨0⟩, 2, 0⟩] ++ [⟨⟨0⟩, 3, 0⟩]) ()
        (some ⟨⟨0⟩, 2, 0⟩) _ :=
    .onward first (by decide) (by decide) (Prod.ext (by decide +kernel) rfl) (by decide +kernel)
  rw [walked, (guarded.refuses _ _ _ _ second).2 (by decide) (by decide)]
  exact ⟨allowed, state, valid, rfl, by decide +kernel⟩

end HostObjects
