import HostObjects.Proofs.Heap.Footprint
import HostObjects.Proofs.Heap.Relink
import HostObjects.Proofs.View.Agreement

/-!
# How long a chain may be

Along a chain without classes, every operation looks at own properties and nothing else, so its
answer can be read off the chain (`propertyNames_of_plain`, `hasProperty_of_plain`,
`getProperty_of_plain`).  A chain that is too long is a fault, unless a property is found among
the objects that the walk gets to.

A change of a link counts the chain of the new prototype and not the object that gets it.  It
therefore accepts a chain that is too long for a walk by one object
(`accepted_chain_walks`); a tower of plain objects is built up to such a chain
(`accepted_tower_is_too_deep`).
-/

namespace HostObjects

open Heap

variable {σ α : Type} {host : Host σ} {s s' t : Session σ} {o p : Handle} {chain : List Handle}
  {name : Text} {obj : HostObject}

/-! ### Chains without classes -/

/-- Visits that read an answer off their object find the first one that the budget gets to. -/
theorem visitAll_of_answers {visit : Unit → Handle → Action σ (α ⊕ Unit)} {ps : List Handle}
    {answer : Handle → Option α}
    (reads : ∀ p ∈ ps, visit () p s = (.ok ((answer p).elim (.inr ()) .inl), s))
    (budget : Nat) :
    visitAll visit budget () ps s =
      (((ps.take budget).findSome? answer).elim
        (if ps.length ≤ budget then .ok (.inr ()) else .error .prototypeChainTooDeep)
        (fun a => .ok (.inl a)), s) := by
  induction ps generalizing budget with
  | nil => cases budget <;> rfl
  | cons p ps ih =>
      cases budget with
      | zero => rfl
      | succ budget =>
          have rest := ih (fun q mem => reads q (List.mem_cons_of_mem _ mem)) budget
          rw [visitAll, bind_apply, reads p List.mem_cons_self]
          cases found : answer p with
          | some a => simp only [List.take_succ_cons, List.findSome?_cons, found]; rfl
          | none =>
              simp only [List.take_succ_cons, List.findSome?_cons, found, List.length_cons,
                Nat.add_le_add_iff_right]
              exact rest

/-- The first own property of the name that a walk along the objects gets to. -/
def Heap.firstOwn (h : Heap) (ps : List Handle) (name : Text) : Option Property :=
  (ps.take maxPrototypeChain).findSome? fun p => Property.find? (h.row p).properties name

theorem visitHas_of_plain (valid : t.heap.isValid p = true)
    (plain : (t.heap.row p).ofClass = none) :
    visitHas host name () p t =
      (.ok (((Property.find? (t.heap.row p).properties name).map fun _ => ()).elim
        (.inr ()) .inl), t) := by
  have asked : View.hasByCallbacks host p name (t.heap.row p).classes (t.asking p) =
      (.ok false, t.asking p) := by
    rw [Row.classes, plain]
    rfl
  have entries : (t.heap.row p).entries name ≠ [] ↔
      (Property.find? (t.heap.row p).properties name).isSome = true := by
    simp [Row.entries_ne_nil_iff, Row.classes, Row.functionClasses, plain]
  unfold visitHas
  rw [bind_apply, hasAt_of_asked valid asked]
  simp only [Except.map, Bool.false_or, entries, Bool.decide_eq_true]
  cases Property.find? (t.heap.row p).properties name <;> rfl

section Plain

variable (walk : PrototypeChain s.heap o chain)
  (plain : ∀ p ∈ chain, (s.heap.row p).ofClass = none)

include walk plain

/-- Along a chain without classes, an enumeration lists own properties. -/
theorem propertyNames_of_plain :
    View.propertyNames host o s =
      (if chain.length ≤ maxPrototypeChain then
        .ok (View.firstOccurrences (chain.flatMap fun p => (s.heap.row p).listed []))
      else .error .prototypeChainTooDeep, s) := by
  refine propertyNames_of_silent walk fun p mem d there => ?_
  rw [Row.classes, plain p mem] at there
  cases there

/-- Along a chain without classes, an existence test looks for an own property. -/
theorem hasProperty_of_plain :
    View.hasProperty host o name s =
      ((s.heap.firstOwn chain name).elim
        (if chain.length ≤ maxPrototypeChain then .ok false else .error .prototypeChainTooDeep)
        (fun _ => .ok true), s) := by
  have reads : ∀ p ∈ chain, visitHas host name () p (s.on o) =
      (.ok (((Property.find? (s.heap.row p).properties name).map fun _ => ()).elim
        (.inr ()) .inl), s.on o) := by
    intro p mem
    rw [← s.row_on o]
    exact visitHas_of_plain ((walk.on o).isValid p mem) (by rw [s.row_on]; exact plain p mem)
  have still : ∀ p ∈ chain, (View.hasAt host p name (s.on o)).2 = s.on o := by
    intro p mem
    have state := congrArg Prod.snd (reads p mem)
    rw [visitHas, bind_apply] at state
    rcases run : View.hasAt host p name (s.on o) with ⟨_ | _, t⟩ <;> rw [run] at state <;>
      exact state
  rw [hasProperty_of_still walk still, visitAll_of_answers reads]
  have first : (chain.take maxPrototypeChain).findSome? (fun p =>
      (Property.find? (s.heap.row p).properties name).map fun _ => ()) =
        (s.heap.firstOwn chain name).map fun _ => () := by
    rw [Heap.firstOwn, List.map_findSome?]
    rfl
  rw [first]
  cases s.heap.firstOwn chain name with
  | some own => rfl
  | none =>
      simp only [Option.map_none, Option.elim_none]
      split <;> rfl

/-- Along a chain without classes, a look-up reads an own property. -/
theorem getProperty_of_plain :
    (View.getProperty host o name s).1 =
      (s.heap.firstOwn chain name).elim
        (if chain.length ≤ maxPrototypeChain then .ok .undefined
        else .error .prototypeChainTooDeep)
        (fun own => .ok own.value) := by
  have reads : ∀ p ∈ chain, visitValue host name () p (s.on o) =
      (.ok (((Property.find? (s.heap.row p).properties name).map Property.value).elim
        (.inr ()) .inl), s.on o) := by
    intro p mem
    have plain := plain p mem
    rw [← s.row_on o] at plain ⊢
    obtain ⟨obj, found⟩ := isValid_iff.mp ((walk.on o).isValid p mem)
    rw [Heap.row, found] at plain ⊢
    rw [visitValue_of_plain found plain]
    cases Property.find? obj.properties name <;> rfl
  have still : ∀ p ∈ chain, ∀ t,
      View.getAt host p name (s.on o) = (.ok none, t) → t = s.on o := by
    intro p mem t run
    have visited := visitValue_eq_inr_iff.mpr run
    rw [reads p mem] at visited
    exact (Prod.mk.inj visited).2.symm
  rw [getProperty_of_still walk still, visitAll_of_answers reads]
  have first : (chain.take maxPrototypeChain).findSome? (fun p =>
      (Property.find? (s.heap.row p).properties name).map Property.value) =
        (s.heap.firstOwn chain name).map Property.value := by
    rw [Heap.firstOwn, List.map_findSome?]
    rfl
  rw [first]
  cases s.heap.firstOwn chain name with
  | some own => rfl
  | none =>
      simp only [Option.map_none, Option.elim_none]
      split <;> rfl

end Plain

/-! ### Accepted chains -/

theorem setPrototype_some_apply (valid : s.heap.isValid p = true) :
    View.setPrototype o (some p) s =
      ((Heap.setPrototype o (some p) s.heap).1,
        s.withHeap (Heap.setPrototype o (some p) s.heap).2) := by
  have checked : s.heap.check p = .ok () := check_eq_ok_iff.mpr valid
  show (Action.reading (fun h => h.check p) >>= _) s = _
  rw [bind_apply]
  simp only [Action.reading, checked]
  rfl

theorem of_setPrototype_ok {prototype : Option Handle}
    (run : View.setPrototype o prototype s = (.ok (), s')) :
    Heap.setPrototype o prototype s.heap = (.ok (), s'.heap) := by
  cases prototype with
  | none =>
      have form : View.setPrototype o none s =
          ((Heap.setPrototype o none s.heap).1,
            s.withHeap (Heap.setPrototype o none s.heap).2) := rfl
      rw [form] at run
      obtain ⟨answer, rfl⟩ := Prod.mk.inj run
      exact Prod.ext answer rfl
  | some p =>
      have valid : s.heap.isValid p = true := by
        obtain ⟨⟨⟩, t, read, -⟩ := of_bind_ok run
        exact check_eq_ok_iff.mp (Prod.mk.inj read).1
      rw [setPrototype_some_apply valid] at run
      obtain ⟨answer, rfl⟩ := Prod.mk.inj run
      exact Prod.ext answer rfl

/-- **A chain that was accepted may be too long by one object.**  If it has no classes, an
enumeration fails exactly for such a chain, and a test for a property and a look-up fail
exactly if, moreover, none of the objects before the last one has the property. -/
theorem accepted_chain_walks {prototype : Option Handle}
    (accepted : View.setPrototype o prototype s = (.ok (), s')) :
    ∃ chain, PrototypeChain s'.heap o chain ∧ chain.length ≤ maxPrototypeChain + 1 ∧
      ((∀ p ∈ chain, (s'.heap.row p).ofClass = none) → ∀ (host : Host σ) (name : Text),
        ((View.propertyNames host o s').1 = .error .prototypeChainTooDeep ↔
          chain.length = maxPrototypeChain + 1) ∧
        ((View.hasProperty host o name s').1 = .error .prototypeChainTooDeep ↔
          chain.length = maxPrototypeChain + 1 ∧ s'.heap.firstOwn chain name = none) ∧
        ((View.getProperty host o name s').1 = .error .prototypeChainTooDeep ↔
          chain.length = maxPrototypeChain + 1 ∧ s'.heap.firstOwn chain name = none)) := by
  obtain ⟨chain, walk, most⟩ := chain_of_setPrototype (of_setPrototype_ok accepted)
  refine ⟨chain, walk, most, fun plain host name => ?_⟩
  have long : ¬ chain.length ≤ maxPrototypeChain ↔ chain.length = maxPrototypeChain + 1 :=
    ⟨fun long => Nat.le_antisymm most (Nat.lt_of_not_le long),
      fun eq le => Nat.not_succ_le_self _ (eq ▸ le)⟩
  rw [propertyNames_of_plain walk plain, hasProperty_of_plain walk plain,
    getProperty_of_plain walk plain, ← long]
  refine ⟨?_, ?_, ?_⟩
  · split <;> simp_all
  · cases s'.heap.firstOwn chain name <;> split <;> simp_all
  · cases s'.heap.firstOwn chain name <;> split <;> simp_all

/-! ### A chain that is too long -/

namespace Tower

/-- The objects of a tower, from the prototype of plain objects upwards. -/
def top : Nat → Handle
  | 0 => ⟨⟨0⟩, objectPrototypeIndex, 0⟩
  | n + 1 => ⟨⟨0⟩, n + 2, 0⟩

/-- What puts one more object on a tower. -/
def storey (n : Nat) : List Turn :=
  turnsOf [.allocPlain, .setPrototype (top (n + 1)) (some (top n))]

/-- A heap with a tower of plain objects, each of them linked to the one below. -/
def heap : Nat → Heap
  | 0 => new ⟨0⟩ .standard .synchronous
  | n + 1 => (heap n).after (storey n)

theorem reachable_heap (n : Nat) : Reachable (heap n) := by
  induction n with
  | zero => exact .new _ _ _
  | succ n ih => exact ih.after (storey n)

/-- What is known of a heap with a tower of so many objects above the lowest one.  There are no
other objects but the prototype of functions. -/
structure Built (n : Nat) (h : Heap) : Prop where
  intact : Intact h
  id : h.id = ⟨0⟩
  limits : h.limits = .standard
  mode : h.mode = .synchronous
  free : h.free = []
  size : h.slots.size = n + 2
  used : h.used = (n + 2) * HostObject.baseBytes
  plain : ∀ q obj, h.object q = .ok obj → obj.ofClass = none ∧ obj.properties = []
  walk : ∃ chain, PrototypeChain h (top n) chain ∧ chain.length = n + 1

namespace Built

variable {n : Nat} {h : Heap}

theorem new : Built 0 (Heap.new ⟨0⟩ .standard .synchronous) where
  intact := intact_new _ _ _
  id := rfl
  limits := rfl
  mode := rfl
  free := rfl
  size := rfl
  used := rfl
  plain q obj found := by
    obtain ⟨-, s, slot, -, occupant⟩ := object_eq_ok_iff.mp found
    rcases index : q.index with _ | _ | i <;> rw [index] at slot
    · cases slot
      cases occupant
      exact ⟨rfl, rfl⟩
    · cases slot
      cases occupant
      exact ⟨rfl, rfl⟩
    · simp [Heap.new, intrinsics] at slot
  walk := ⟨[top 0], .last rfl, rfl⟩

/-- The object that is allocated next. -/
def next (h : Heap) : HostObject := .ordinary (some h.objectPrototype)

theorem row (built : Built n h) (q : Handle) :
    (h.row q).ofClass = none ∧ (h.row q).properties = [] := by
  unfold Heap.row
  cases found : h.object q with
  | error => exact ⟨rfl, rfl⟩
  | ok obj => exact built.plain q obj found

/-- No object of a tower has any property. -/
theorem firstOwn (built : Built n h) (ps : List Handle) (name : Text) :
    h.firstOwn ps name = none := by
  rw [Heap.firstOwn, List.findSome?_eq_none_iff]
  intro q _
  rw [(built.row q).2]
  rfl

theorem place_eq (built : Built n h) :
    h.place (next h) =
      (top (n + 1),
        { h with
          used := h.used + HostObject.baseBytes
          slots := h.slots.push ⟨0, some (next h), HostObject.baseBytes⟩
          marks := h.marks.push false }) := by
  simp only [place, reusable?, built.free, top, built.id, built.size]
  rfl

/-- There is room for as many objects as a walk gets through. -/
theorem allocPlain_apply (built : Built n h) (low : n < maxPrototypeChain)
    (held : ClassId → Bool) :
    Heap.allocPlain held h = (.ok (top (n + 1)), (h.place (next h)).2) := by
  have room : h.used + HostObject.baseBytes ≤ Limits.standard.threshold := by
    have most : (n + 3) * HostObject.baseBytes ≤
        (maxPrototypeChain + 2) * HostObject.baseBytes :=
      Nat.mul_le_mul_right _ (Nat.add_le_add_right low 2)
    calc h.used + HostObject.baseBytes = (n + 3) * HostObject.baseBytes := by
          rw [built.used, Nat.add_mul, Nat.add_mul]
          omega
      _ ≤ (maxPrototypeChain + 2) * HostObject.baseBytes := most
      _ ≤ Limits.standard.threshold := by decide
  have made : makeRoom held (next h).size h = (.ok (), h) := by
    have within : ¬ h.limits.threshold < h.used + (next h).size := by
      rw [built.limits]
      exact Nat.not_lt.mpr room
    have allowed : ¬ h.limits.maxBytes < h.used + (next h).size := by
      rw [built.limits]
      exact Nat.not_lt.mpr (Nat.le_trans room (by decide))
    rw [makeRoom_of_synchronous built.mode, if_neg within, verdict, if_neg allowed]
  rw [Heap.allocPlain_apply, alloc, bind_apply, ← next, made]
  show (Except.ok (h.place (next h)).1, (h.place (next h)).2) = _
  rw [built.place_eq]

/-- The next object is linked to the tower. -/
theorem setPrototype_apply (built : Built n h) (low : n < maxPrototypeChain) :
    ∃ h', Heap.setPrototype (top (n + 1)) (some (top n)) (h.place (next h)).2 = (.ok (), h') ∧
      Built (n + 1) h' := by
  obtain ⟨chain, walk, length⟩ := built.walk
  have empty := built.intact.freeIsEmpty
  have named : (h.place (next h)).1 = top (n + 1) := by rw [built.place_eq]
  have found : (h.place (next h)).2.object (top (n + 1)) = .ok (next h) := by
    rw [object_place empty, if_pos named.symm]
  have notMem : top (n + 1) ∉ chain := by
    intro mem
    have valid := walk.isValid _ mem
    rw [← named, not_isValid_place_fst empty] at valid
    cases valid
  have linked := setPrototype_of_walk found (walk.place empty (next h)) notMem (length ▸ low)
  refine ⟨_, linked, ?_⟩
  have intact := stable_intact.store _ _ { next h with prototype := some (top n) } _ found
    (stable_intact.place (next h) h built.intact)
  have walk := (walk.place empty (next h)).link_store found notMem
  have plain : ∀ q obj, (h.place (next h)).2.object q = .ok obj →
      obj.ofClass = none ∧ obj.properties = [] := by
    intro q obj there
    rw [object_place empty] at there
    split at there
    · cases there
      exact ⟨rfl, rfl⟩
    · exact built.plain q obj there
  rw [built.place_eq] at found intact walk plain ⊢
  have bytes : bytesAt
      { h with
        used := h.used + HostObject.baseBytes
        slots := h.slots.push ⟨0, some (next h), HostObject.baseBytes⟩
        marks := h.marks.push false } (top (n + 1)).index = HostObject.baseBytes := by
    simp [bytesAt, top, ← built.size]
  constructor
  · exact intact
  · exact built.id
  · exact built.limits
  · exact built.mode
  · exact built.free
  · simp [store, built.size]
  · show rebalance _ _ _ = _
    rw [bytes]
    simp [rebalance, HostObject.size, next, HostObject.ordinary, built.used, Nat.add_mul]
    omega
  · intro q obj there
    rw [object_store found] at there
    split at there
    · cases there
      exact ⟨rfl, rfl⟩
    · exact plain q obj there
  · exact ⟨_, walk, by rw [List.length_cons, length]⟩

/-- No walk gets through a tower that is too high. -/
theorem too_deep {s : Session σ} (built : Built n s.heap) (high : maxPrototypeChain ≤ n)
    (host : Host σ) (name : Text) :
    (∀ p, (s.heap.row p).ofClass = none) ∧
      (View.propertyNames host (top n) s).1 = .error .prototypeChainTooDeep ∧
      (View.hasProperty host (top n) name s).1 = .error .prototypeChainTooDeep ∧
      (View.getProperty host (top n) name s).1 = .error .prototypeChainTooDeep := by
  obtain ⟨chain, walk, length⟩ := built.walk
  have plain : ∀ p ∈ chain, (s.heap.row p).ofClass = none := fun p _ => (built.row p).1
  have long : ¬ chain.length ≤ maxPrototypeChain := by
    rw [length]
    exact Nat.not_le.mpr (Nat.lt_succ_of_le high)
  rw [propertyNames_of_plain walk plain, hasProperty_of_plain walk plain,
    getProperty_of_plain walk plain, built.firstOwn, Option.elim_none, Option.elim_none,
    if_neg long, if_neg long, if_neg long]
  exact ⟨fun p => (built.row p).1, rfl, rfl, rfl⟩

end Built

/-- The heap in which the last object is not linked to the tower yet. -/
def unlinked (n : Nat) : Heap := (heap n).after (turnsOf [.allocPlain])

/-- **As long as a walk gets through the tower, one more object may be put on it.** -/
theorem built_heap {n : Nat} (low : n ≤ maxPrototypeChain) : Built n (heap n) := by
  induction n with
  | zero => exact .new
  | succ n ih =>
      have built := ih (Nat.le_of_succ_le low)
      obtain ⟨h', linked, next⟩ := built.setPrototype_apply low
      have step : heap (n + 1) =
          (Heap.setPrototype (top (n + 1)) (some (top n))
            (Heap.allocPlain (fun _ => false) (heap n)).2).2 := rfl
      rw [step, built.allocPlain_apply low, linked]
      exact next

/-- The link is accepted. -/
theorem linked_heap {n : Nat} (low : n < maxPrototypeChain) :
    View.setPrototype (top (n + 1)) (some (top n)) (⟨unlinked n, [], ()⟩ : Session Unit) =
      (.ok (), ⟨heap (n + 1), [], ()⟩) := by
  have built := built_heap (Nat.le_of_lt low)
  obtain ⟨chain, walk, -⟩ := built.walk
  obtain ⟨h', linked, -⟩ := built.setPrototype_apply low
  have placed : unlinked n = ((heap n).place (Built.next (heap n))).2 := by
    have alloc : unlinked n = (Heap.allocPlain (fun _ => false) (heap n)).2 := rfl
    rw [alloc, built.allocPlain_apply low]
  have step : heap (n + 1) =
      (Heap.setPrototype (top (n + 1)) (some (top n)) (unlinked n)).2 := rfl
  have valid : (⟨unlinked n, [], ()⟩ : Session Unit).heap.isValid (top n) = true := by
    rw [placed]
    exact (walk.place built.intact.freeIsEmpty _).isValid_start
  rw [setPrototype_some_apply valid, step, placed, linked]
  rfl

end Tower

/-- At the foot of a tower an object is linked to the prototype of plain objects, and no
enumeration fails. -/
theorem accepted_chain_walks_tower :
    View.setPrototype (Tower.top 1) (some (Tower.top 0))
        (⟨Tower.unlinked 0, [], ()⟩ : Session Unit) = (.ok (), ⟨Tower.heap 1, [], ()⟩) ∧
      (View.propertyNames idleHost (Tower.top 1) ⟨Tower.heap 1, [], ()⟩).1 ≠
        .error .prototypeChainTooDeep := by
  have accepted := Tower.linked_heap (n := 0) (by decide)
  have built := Tower.built_heap (n := 1) (by decide)
  obtain ⟨chain, walk, -, fails⟩ := accepted_chain_walks accepted
  obtain ⟨chain', walk', length⟩ := built.walk
  obtain rfl : chain = chain' := walk.unique walk'
  have fails := fails (fun p _ => (built.row p).1) idleHost (Text.ofString "x")
  refine ⟨accepted, fun deep => ?_⟩
  have long := fails.1.mp deep
  rw [length] at long
  cases long

/-- **On a tower that a walk just gets through, one more object is accepted**, and then no walk
along its chain gets to the end, though no object on it has a class. -/
theorem accepted_tower_is_too_deep :
    Reachable (Tower.unlinked 9999) ∧
      View.setPrototype (Tower.top 10000) (some (Tower.top 9999))
        (⟨Tower.unlinked 9999, [], ()⟩ : Session Unit) = (.ok (), ⟨Tower.heap 10000, [], ()⟩) ∧
      (∀ p, ((Tower.heap 10000).row p).ofClass = none) ∧
      (View.propertyNames idleHost (Tower.top 10000) ⟨Tower.heap 10000, [], ()⟩).1 =
        .error .prototypeChainTooDeep ∧
      (View.hasProperty idleHost (Tower.top 10000) (Text.ofString "x")
        ⟨Tower.heap 10000, [], ()⟩).1 = .error .prototypeChainTooDeep ∧
      (View.getProperty idleHost (Tower.top 10000) (Text.ofString "x")
        ⟨Tower.heap 10000, [], ()⟩).1 = .error .prototypeChainTooDeep := by
  have built : Tower.Built 10000 (⟨Tower.heap 10000, [], ()⟩ : Session Unit).heap := by
    dsimp only
    exact Tower.built_heap (Nat.le_refl _)
  have linked := Tower.linked_heap (n := 9999) (by decide)
  simp only [Nat.reduceAdd] at linked
  have deep := built.too_deep (Nat.le_refl _) idleHost (Text.ofString "x")
  dsimp only at deep
  exact ⟨(Tower.reachable_heap 9999).after _, linked, deep⟩

end HostObjects
