import HostObjects.Proofs.Heap.PrototypeChain
import HostObjects.Proofs.Heap.Write

/-!
# What a change of a link checks

A change of a prototype link walks the chain of the new prototype.  How the walk ends depends on
that chain alone (`checkChain_of_walk`): it finds the object whose link is to change among the
objects that it gets to, or it gets to the end, or the chain is too long for it.

So an accepted change puts an object in front of a chain that the walk got through
(`of_setPrototype_ok`).  The object itself was not counted, and its new chain may be longer by
one than a walk gets through (`chain_of_setPrototype`).

In a heap whose chains all end there is nothing else that a change can meet, so each of its
answers stands for one condition on the new prototype and its chain (`link_answers`).
-/

namespace HostObjects.Heap

variable {h h' : Heap} {o p : Handle} {obj : HostObject} {chain : List Handle}
  {prototype : Option Handle}

/-- A chain visits the object that it starts at. -/
theorem PrototypeChain.mem_start (walk : PrototypeChain h o chain) : o ∈ chain := by
  cases walk with
  | last | link => exact List.mem_cons_self

/-- So it is among the objects that any walk gets to. -/
theorem PrototypeChain.mem_take_start (walk : PrototypeChain h o chain) {budget : Nat}
    (positive : 0 < budget) : o ∈ chain.take budget := by
  obtain ⟨budget, rfl⟩ := Nat.exists_eq_succ_of_ne_zero positive.ne'
  cases walk with
  | last | link => exact List.mem_cons_self

/-- **The check tells whether the object is among those that it gets to**, and otherwise
whether it gets to the end of the chain. -/
theorem checkChain_of_walk {visited : Std.HashSet Handle} (walk : PrototypeChain h p chain)
    (unvisited : ∀ q ∈ chain, q ∉ visited) (budget : Nat) :
    h.checkChain o budget visited (some p) =
      if o ∈ chain.take budget then .error .prototypeCycle
      else if chain.length ≤ budget then .ok ()
      else .error .prototypeChainTooDeep := by
  induction walk generalizing budget visited with
  | @last p found =>
      cases budget with
      | zero => rfl
      | succ budget =>
          have new : visited.contains p = false := by simpa using unvisited p
          unfold checkChain
          rw [new, Bool.false_or, found]
          by_cases same : p = o
          · simp [same]
          · have other : o ≠ p := Ne.symm same
            cases budget <;> simp [same, other, checkChain]
  | @link p next rest found walk ih =>
      cases budget with
      | zero => rfl
      | succ budget =>
          have new : visited.contains p = false := by
            simpa using unvisited p List.mem_cons_self
          unfold checkChain
          rw [new, Bool.false_or, found]
          by_cases same : p = o
          · simp [same]
          · have other : o ≠ p := Ne.symm same
            have later : ∀ q ∈ rest, q ∉ visited.insert p := by
              intro q mem seen
              rcases Std.HashSet.mem_insert.mp seen with eq | seen
              · exact PrototypeChain.not_mem found walk (eq_of_beq eq ▸ mem)
              · exact unvisited q (List.mem_cons_of_mem _ mem) seen
            simp only [beq_iff_eq, same, if_false, ih later budget, List.take_succ_cons,
              List.mem_cons, other, false_or, List.length_cons, Nat.add_le_add_iff_right]

/-- **An accepted change stores the link**, and the check got through the chain of the new
prototype without coming to the object. -/
theorem of_setPrototype_ok (run : setPrototype o prototype h = (.ok (), h')) :
    ∃ obj, h.object o = .ok obj ∧
      h' = h.store o.index { obj with prototype := prototype } ∧
      ∀ p, prototype = some p →
        ∃ chain, PrototypeChain h p chain ∧ o ∉ chain ∧ chain.length ≤ maxPrototypeChain := by
  unfold setPrototype at run
  obtain ⟨⟨⟩, -, run⟩ := of_reading_bind_ok run
  obtain ⟨⟨⟩, accepted, run⟩ := of_reading_bind_ok run
  obtain ⟨obj, found, stored⟩ := of_change_ok run
  refine ⟨obj, found, stored, fun p link => ?_⟩
  subst link
  split at accepted
  next => cases accepted
  next =>
    obtain ⟨chain, walk, notMem⟩ := chain_of_checkChain accepted p rfl
    refine ⟨chain, walk, notMem, ?_⟩
    rw [checkChain_of_walk walk fun _ _ => Std.HashSet.not_mem_empty,
      if_neg fun mem => notMem (List.mem_of_mem_take mem)] at accepted
    by_contra long
    rw [if_neg long] at accepted
    cases accepted

/-- A change of a link is refused or stored, as the check of the new prototype says. -/
theorem setPrototype_apply (found : h.object o = .ok obj) (link : Option Handle) :
    setPrototype o link h =
      match if link = some o then .error .prototypeCycle
        else h.checkChain o maxPrototypeChain ∅ link with
      | .ok () => (.ok (), h.store o.index { obj with prototype := link })
      | .error e => (.error e, h) := by
  unfold setPrototype
  rw [reading_bind_of_ok (check_eq_ok_iff.mpr (isValid_of_object found)), bind_apply, reading]
  split
  · next run =>
      obtain ⟨accepted, rfl⟩ := Prod.mk.inj run
      rw [accepted, change, found]
  · next run =>
      obtain ⟨refused, rfl⟩ := Prod.mk.inj run
      rw [refused]

/-- A link to a chain that is short enough and does not come to the object is accepted. -/
theorem setPrototype_of_walk (found : h.object o = .ok obj)
    (walk : PrototypeChain h p chain) (notMem : o ∉ chain)
    (short : chain.length ≤ maxPrototypeChain) :
    setPrototype o (some p) h =
      (.ok (), h.store o.index { obj with prototype := some p }) := by
  have other : some p ≠ some o := by
    rintro ⟨⟩
    exact notMem walk.mem_start
  have accepted : h.checkChain o maxPrototypeChain ∅ (some p) = .ok () := by
    rw [checkChain_of_walk walk fun _ _ => Std.HashSet.not_mem_empty, if_pos short,
      if_neg fun mem => notMem (List.mem_of_mem_take mem)]
  rw [setPrototype_apply found, if_neg other, accepted]

/-- The new link comes before the chain of the new prototype. -/
theorem PrototypeChain.link_store (walk : PrototypeChain h p chain)
    (found : h.object o = .ok obj) (notMem : o ∉ chain) :
    PrototypeChain (h.store o.index { obj with prototype := some p }) o (o :: chain) := by
  refine .link (by rw [prototype_store found, if_pos rfl]) (walk.congr fun q mem => ?_)
  rw [prototype_store found, if_neg]
  rintro rfl
  exact notMem mem

/-- **An accepted change leaves the object a chain that ends**, longer by the object itself
than what was checked. -/
theorem chain_of_setPrototype (run : setPrototype o prototype h = (.ok (), h')) :
    ∃ chain, PrototypeChain h' o chain ∧ chain.length ≤ maxPrototypeChain + 1 := by
  obtain ⟨obj, found, rfl, checked⟩ := of_setPrototype_ok run
  cases link : prototype with
  | none =>
      refine ⟨[o], .last (by rw [prototype_store found, if_pos rfl]), ?_⟩
      exact Nat.succ_le_succ (Nat.zero_le _)
  | some p =>
      obtain ⟨chain, walk, notMem, short⟩ := checked p link
      exact ⟨o :: chain, walk.link_store found notMem, Nat.succ_le_succ short⟩

/-! ### Every answer -/

/-- What a change of an object's link answers to a prototype with the chain. -/
def linkAnswer (o : Handle) (chain : List Handle) : Except Fault Unit :=
  if o ∈ chain.take maxPrototypeChain then .error .prototypeCycle
  else if chain.length ≤ maxPrototypeChain then .ok ()
  else .error .prototypeChainTooDeep

/-- The heap in which an object has another link and nothing else is changed. -/
def withLink (h : Heap) (o : Handle) (link : Option Handle) : Heap :=
  { h with
    slots := h.slots.modify o.index fun s =>
      { s with occupant := s.occupant.map fun obj => { obj with prototype := link } } }

/-- Links count nothing, so a change of one moves no count. -/
theorem store_eq_withLink (con : Consistent h) (found : h.object o = .ok obj)
    (link : Option Handle) :
    h.store o.index { obj with prototype := link } = h.withLink o link := by
  obtain ⟨-, s, slot, -, occupied⟩ := object_eq_ok_iff.mp found
  have bytes : s.bytes = obj.size := con.bytes_of_occupied o.index s obj slot occupied
  have used : rebalance h.used (h.bytesAt o.index) obj.size = h.used := by
    simp [rebalance, bytesAt, slot, bytes]
  have slots : (h.store o.index { obj with prototype := link }).slots =
      (h.withLink o link).slots := by
    refine Array.ext_getElem? fun i => ?_
    rw [store_getElem?, withLink, Array.getElem?_modify]
    split
    · next same =>
        subst same
        simp [slot, Slot.occupy, occupied, bytes, HostObject.size]
    · rfl
  calc h.store o.index { obj with prototype := link }
      = { h with
          used := rebalance h.used (h.bytesAt o.index) obj.size
          slots := (h.store o.index { obj with prototype := link }).slots } := rfl
    _ = h.withLink o link := by rw [used, slots]; rfl

/-- **The answer depends on the chain of the new prototype alone.** -/
theorem setPrototype_of_chain (found : h.object o = .ok obj) (walk : PrototypeChain h p chain) :
    (setPrototype o (some p) h).1 = linkAnswer o chain := by
  have checked : (if some p = some o then .error .prototypeCycle
      else h.checkChain o maxPrototypeChain ∅ (some p)) = linkAnswer o chain := by
    rw [checkChain_of_walk walk fun _ _ => Std.HashSet.not_mem_empty]
    unfold linkAnswer
    split
    · next same =>
        obtain rfl := Option.some.inj same
        exact (if_pos (walk.mem_take_start (Nat.succ_pos _))).symm
    · rfl
  rw [setPrototype_apply found, checked]
  cases linkAnswer o chain <;> rfl

/-- A new prototype that names no object is what the walk finds first. -/
theorem setPrototype_of_gone (found : h.object o = .ok obj) (gone : h.isValid p = false) :
    (setPrototype o (some p) h).1 = .error (h.rejection p) := by
  have other : p ≠ o := by
    rintro rfl
    rw [isValid_of_object found] at gone
    cases gone
  have checked : h.checkChain o maxPrototypeChain ∅ (some p) = .error (h.rejection p) := by
    unfold maxPrototypeChain checkChain
    simp [other, prototype, map_object_of_invalid gone]
  rw [setPrototype_apply found, if_neg (by simpa using other), checked]

/-- An object has one chain, so whatever is said of some chain is said of that one. -/
theorem PrototypeChain.exists_iff (walk : PrototypeChain h p chain) {Q : List Handle → Prop} :
    (∃ chain, PrototypeChain h p chain ∧ Q chain) ↔ Q chain := by
  refine ⟨?_, fun holds => ⟨chain, walk, holds⟩⟩
  rintro ⟨other, walk', holds⟩
  rwa [walk.unique walk']

theorem linkAnswer_eq_ok_iff :
    linkAnswer o chain = .ok () ↔ chain.length ≤ maxPrototypeChain ∧ o ∉ chain := by
  unfold linkAnswer
  split
  · next mem => simp [List.mem_of_mem_take mem]
  · next notMem =>
      split
      · next short =>
          rw [List.take_of_length_le short] at notMem
          simp [short, notMem]
      · next long => simp [long]

theorem linkAnswer_eq_cycle_iff :
    linkAnswer o chain = .error .prototypeCycle ↔ o ∈ chain.take maxPrototypeChain := by
  unfold linkAnswer
  split
  · next mem => simp [mem]
  · next notMem => split <;> simp [notMem]

theorem linkAnswer_eq_tooDeep_iff :
    linkAnswer o chain = .error .prototypeChainTooDeep ↔
      maxPrototypeChain < chain.length ∧ o ∉ chain.take maxPrototypeChain := by
  unfold linkAnswer
  split
  · next mem => simp [mem]
  · next notMem => split <;> simp_all

/-- A chain is no reason to reject a handle. -/
theorem linkAnswer_ne_rejection (o : Handle) (chain : List Handle) :
    linkAnswer o chain ≠ .error .foreignHandle ∧ linkAnswer o chain ≠ .error .staleHandle := by
  unfold linkAnswer
  split
  · simp
  · split <;> simp

theorem rejection_eq_foreign_iff : h.rejection p = .foreignHandle ↔ p.heap ≠ h.id := by
  unfold rejection
  split <;> simp_all

theorem rejection_eq_stale_iff : h.rejection p = .staleHandle ↔ p.heap = h.id := by
  unfold rejection
  split <;> simp_all

theorem rejection_ne_of_link (h : Heap) (p : Handle) :
    h.rejection p ≠ .prototypeCycle ∧ h.rejection p ≠ .prototypeChainTooDeep := by
  unfold rejection
  split <;> simp

/-- **A change of a link gives the one answer that fits.**  In every state of a run, linking an
object to a prototype succeeds exactly if the prototype is there and its chain is no longer than
a walk gets through, and does not come to the object; and then the link is all that is changed.
It closes a cycle exactly if the object is among the objects of that chain that a walk gets to,
and is too deep exactly if the chain is longer and the object is not among them.  Only a
prototype that is of another heap, or gone, is rejected. -/
theorem link_answers (id : HeapId) (limits : Limits) (mode : CollectionMode)
    (turns : List Turn) (allowed : AllAllowed (new id limits mode) turns) :
    ∀ h ∈ states (new id limits mode) turns, ∀ o p, h.isValid o = true →
      ((setPrototype o (some p) h).1 = .ok () ↔
        h.isValid p = true ∧ ∃ chain, PrototypeChain h p chain ∧
          chain.length ≤ maxPrototypeChain ∧ o ∉ chain) ∧
      ((setPrototype o (some p) h).1 = .error .prototypeCycle ↔
        ∃ chain, PrototypeChain h p chain ∧ o ∈ chain.take maxPrototypeChain) ∧
      ((setPrototype o (some p) h).1 = .error .prototypeChainTooDeep ↔
        ∃ chain, PrototypeChain h p chain ∧ maxPrototypeChain < chain.length ∧
          o ∉ chain.take maxPrototypeChain) ∧
      ((setPrototype o (some p) h).1 = .error .foreignHandle ↔ p.heap ≠ h.id) ∧
      ((setPrototype o (some p) h).1 = .error .staleHandle ↔
        p.heap = h.id ∧ h.isValid p = false) ∧
      ((setPrototype o (some p) h).1 = .ok () →
        (setPrototype o (some p) h).2 = h.withLink o (some p)) := by
  intro h mem o p valid
  have chained := chained_states (chained_new id limits mode) allowed h mem
  obtain ⟨obj, found⟩ := isValid_iff.mp valid
  have stored : (setPrototype o (some p) h).1 = .ok () →
      (setPrototype o (some p) h).2 = h.withLink o (some p) := by
    intro accepted
    obtain ⟨obj, found, after, -⟩ := of_setPrototype_ok (Prod.ext accepted rfl)
    exact after.trans (store_eq_withLink chained.intact.toConsistent found _)
  cases there : h.isValid p with
  | true =>
      obtain ⟨chain, walk⟩ := chained.ends p there
      have own : p.heap = h.id := (isValid_iff_slot.mp there).1
      obtain ⟨notForeign, notStale⟩ := linkAnswer_ne_rejection o chain
      rw [walk.exists_iff, walk.exists_iff, walk.exists_iff]
      rw [setPrototype_of_chain found walk] at stored ⊢
      refine ⟨?_, linkAnswer_eq_cycle_iff, linkAnswer_eq_tooDeep_iff, ?_, ?_, stored⟩
      · simpa using linkAnswer_eq_ok_iff
      · simp [own, notForeign]
      · simp [notStale]
  | false =>
      have noChain : ∀ chain, ¬ PrototypeChain h p chain := by
        intro chain walk
        rw [walk.isValid_start] at there
        cases there
      obtain ⟨notCycle, notTooDeep⟩ := rejection_ne_of_link h p
      rw [setPrototype_of_gone found there]
      simp [noChain, notCycle, notTooDeep, rejection_eq_foreign_iff, rejection_eq_stale_iff]

/-- The prototype of a base class cannot be linked to an instance of a class derived from it: it
is the third object on the chain of that instance. -/
theorem link_answers_derived :
    AllAllowed (new ⟨0⟩ .standard .synchronous) (relinked.take 2) ∧
      ((new ⟨0⟩ .standard .synchronous).after (relinked.take 2)).isValid ⟨⟨0⟩, 2, 0⟩ = true ∧
      (setPrototype ⟨⟨0⟩, 2, 0⟩ (some ⟨⟨0⟩, 4, 0⟩)
        ((new ⟨0⟩ .standard .synchronous).after (relinked.take 2))).1 =
          .error .prototypeCycle := by
  have allowed : AllAllowed (new ⟨0⟩ .standard .synchronous) (relinked.take 2) :=
    ⟨fun _ _ => rfl, ⟨fun _ _ => rfl, by decide +kernel⟩, trivial⟩
  have valid : ((new ⟨0⟩ .standard .synchronous).after (relinked.take 2)).isValid
      ⟨⟨0⟩, 2, 0⟩ = true := by decide +kernel
  have walk : PrototypeChain ((new ⟨0⟩ .standard .synchronous).after (relinked.take 2))
      ⟨⟨0⟩, 4, 0⟩ [⟨⟨0⟩, 4, 0⟩, ⟨⟨0⟩, 3, 0⟩, ⟨⟨0⟩, 2, 0⟩, ⟨⟨0⟩, 0, 0⟩] :=
    .link (by decide +kernel) (.link (by decide +kernel)
      (.link (by decide +kernel) (.last (by decide +kernel))))
  have answers := link_answers ⟨0⟩ .standard .synchronous (relinked.take 2) allowed _
    (after_mem_states _ _) ⟨⟨0⟩, 2, 0⟩ ⟨⟨0⟩, 4, 0⟩ valid
  refine ⟨allowed, valid, answers.2.1.mpr ⟨_, walk, ?_⟩⟩
  rw [List.take_of_length_le (by decide)]
  decide

end HostObjects.Heap
