import HostObjects.Proofs.Heap.Census
import HostObjects.Proofs.Heap.LostValue

/-!
# What fits into a heap

`footprint` is what the live objects of a heap count: their own size, added up, without
a look at the counts that the heap keeps.  A heap counts the size of all its objects
(`Consistent.used_eq`), so what it counts after a collection is its footprint
(`used_collect`).

Making room collects in different places for the two modes, and a heap below its
threshold does not collect at all.  But whenever it says that there is no room it has
collected, so it says so exactly if the footprint leaves none (`makeRoom_fst`), as long
as the threshold is not above the limit.

The count itself stays within the limit in all reachable states, but for the two
intrinsic prototypes that a heap starts with (`Bounded`).  This does not hold between the
steps of an operation, since a property is added after room was made for it; so it is
`Metered`, a property that making room and putting in keep together.
-/

namespace HostObjects.Heap

variable {h h' : Heap} {held : ClassId → Bool} {bytes : Nat}

/-! ### Bytes of objects -/

/-- The bytes that some objects count. -/
def bytesOf (rs : List Reaped) : Nat := (rs.map fun r => r.object.size).sum

open Classical in
/-- The bytes that the live objects of a heap count. -/
noncomputable def footprint (held : ClassId → Bool) (h : Heap) : Nat :=
  bytesOf (h.remains.filter fun r => Alive held h (.object r.handle))

theorem bytesOf_append (rs rs' : List Reaped) :
    bytesOf (rs ++ rs') = bytesOf rs + bytesOf rs' := by
  simp [bytesOf]

theorem bytesOf_perm {rs rs' : List Reaped} (perm : rs.Perm rs') : bytesOf rs = bytesOf rs' :=
  (perm.map _).sum_nat

/-- A slot counts the object in it. -/
theorem Consistent.bytesAt_eq (con : Consistent h) (i : Nat) :
    h.bytesAt i = bytesOf (h.reap? i).toList := by
  unfold bytesAt reap?
  cases slot : h.slots[i]? with
  | none => rfl
  | some s =>
      cases occupied : s.occupant with
      | none => simp [bytesOf, con.bytes_of_empty i s slot occupied, occupied]
      | some obj =>
          have bytes := con.bytes_of_occupied i s obj slot occupied
          simp [bytesOf, bytes, occupied, HostObject.size]

/-- **A heap counts what its objects count.** -/
theorem Consistent.used_eq_bytesOf (con : Consistent h) : h.used = bytesOf h.remains := by
  have sum : ∀ l : List Nat, (l.map h.bytesAt).sum = bytesOf (l.filterMap h.reap?) := by
    intro l
    induction l with
    | nil => rfl
    | cons i l ih =>
        rw [List.map_cons, List.sum_cons, ih, con.bytesAt_eq]
        cases found : h.reap? i with
        | none => simp [List.filterMap_cons_none found, bytesOf]
        | some r => simp [List.filterMap_cons_some found, bytesOf]
  rw [con.used_eq, sum_bytes_eq_sum_range, sum]
  rfl

/-! ### Collections -/

/-- What dies in a collection and what the live objects count make up the whole. -/
theorem used_eq_dead_add_footprint (ok : Intact h) (held : ClassId → Bool) :
    h.used = bytesOf (h.deadIn held) + h.footprint held ∧
      (h.collect held).used = h.footprint held := by
  classical
  let live : Reaped → Bool := fun r => decide (Alive held h (.object r.handle))
  -- What there was is what died and what remains; of these only the latter is alive.
  have perm := remains_collect held h
  have dead : (h.deadIn held).filter live = [] := by
    refine List.filter_eq_nil_iff.mpr fun r mem alive => ?_
    obtain ⟨found, gone⟩ := of_mem_deadIn mem
    have stays := object_collect_of_alive ok found (of_decide_eq_true alive)
    rw [isValid_of_object stays] at gone
    cases gone
  have kept : ((h.collect held).remains).filter live = (h.collect held).remains := by
    refine List.filter_eq_self.mpr fun r mem => decide_eq_true ?_
    exact (object_of_object_collect ok (object_of_mem_remains mem)).2
  have footprint : h.footprint held = bytesOf (h.collect held).remains := by
    have filtered := perm.filter live
    rw [List.filter_append, dead, kept, List.nil_append] at filtered
    exact bytesOf_perm filtered
  refine ⟨?_, ?_⟩
  · rw [ok.toConsistent.used_eq_bytesOf, bytesOf_perm perm, bytesOf_append, footprint]
  · rw [(ok.collect held).toConsistent.used_eq_bytesOf, footprint]

/-- **After a collection a heap counts its footprint.** -/
theorem used_collect (ok : Intact h) (held : ClassId → Bool) :
    (h.collect held).used = h.footprint held :=
  (used_eq_dead_add_footprint ok held).2

theorem footprint_le_used (ok : Intact h) (held : ClassId → Bool) :
    h.footprint held ≤ h.used := by
  have whole := (used_eq_dead_add_footprint ok held).1
  omega

/-! ### Making room -/

/-- The end of making room: whether the heap has room now. -/
def verdict (bytes : Nat) (h : Heap) : Except Fault Unit × Heap :=
  if h.limits.maxBytes < h.used + bytes then (.error .outOfMemory, h) else (.ok (), h)

@[simp] theorem verdict_snd (bytes : Nat) (h : Heap) : (verdict bytes h).2 = h := by
  unfold verdict
  split <;> rfl

theorem makeRoom_eq_verdict (held : ClassId → Bool) (bytes : Nat) (h : Heap) :
    makeRoom held bytes h =
      verdict bytes ((h.answerThreshold held bytes).answerLimit held bytes) := rfl

/-- A synchronous heap collects beyond its threshold. -/
theorem makeRoom_of_synchronous (mode : h.mode = .synchronous) :
    makeRoom held bytes h =
      verdict bytes (if h.limits.threshold < h.used + bytes then h.collect held else h) := by
  have limit : ∀ h' : Heap, h'.mode = .synchronous → h'.answerLimit held bytes = h' := by
    intro h' mode'
    rw [answerLimit, mode', if_neg fun both => absurd both.2 (by decide)]
  rw [makeRoom_eq_verdict, answerThreshold, mode]
  split
  · rw [limit (h.collect held) mode]
  · rw [limit h mode]

/-- A deferred heap collects beyond its limit, and beyond its threshold it schedules a
collection. -/
theorem makeRoom_of_deferred (mode : h.mode = .deferred) :
    makeRoom held bytes h =
      verdict bytes
        (if h.limits.maxBytes < h.used + bytes then h.collect held
        else if h.limits.threshold < h.used + bytes then { h with scheduled := true }
        else h) := by
  have threshold : h.answerThreshold held bytes =
      if h.limits.threshold < h.used + bytes then { h with scheduled := true } else h := by
    simp only [answerThreshold, mode]
  rw [makeRoom_eq_verdict, threshold]
  by_cases full : h.limits.maxBytes < h.used + bytes
  · rw [if_pos full]
    split
    · -- The collection takes the schedule back.
      rw [answerLimit, if_pos ⟨full, mode⟩]
      rfl
    · rw [answerLimit, if_pos ⟨full, mode⟩]
  · rw [if_neg full]
    split
    · rw [answerLimit, if_neg fun both => full both.1]
    · rw [answerLimit, if_neg fun both => full both.1]

theorem verdict_fst_of_used {room : Heap} (limits : room.limits = h.limits)
    (same : h.limits.maxBytes < room.used + bytes ↔
      h.limits.maxBytes < h.footprint held + bytes) :
    (verdict bytes room).1 =
      if h.limits.maxBytes < h.footprint held + bytes then .error .outOfMemory
      else .ok () := by
  unfold verdict
  rw [limits]
  simp only [same]
  split <;> rfl

/-- **Making room fails exactly if the live objects leave none**, whichever collections
run: below the threshold there is room, and a heap that has none left has collected. -/
theorem makeRoom_fst (ok : Intact h) (sane : h.limits.threshold ≤ h.limits.maxBytes) :
    (makeRoom held bytes h).1 =
      if h.limits.maxBytes < h.footprint held + bytes then .error .outOfMemory
      else .ok () := by
  have le := footprint_le_used ok held
  have collected : (verdict bytes (h.collect held)).1 =
      if h.limits.maxBytes < h.footprint held + bytes then .error .outOfMemory
      else .ok () :=
    verdict_fst_of_used rfl (by rw [used_collect ok])
  cases mode : h.mode with
  | synchronous =>
      rw [makeRoom_of_synchronous mode]
      split
      · exact collected
      · exact verdict_fst_of_used rfl (by omega)
  | deferred =>
      rw [makeRoom_of_deferred mode]
      split
      · exact collected
      · split
        · exact verdict_fst_of_used rfl (by dsimp only; omega)
        · exact verdict_fst_of_used rfl (by omega)

/-! ### Allocations and new properties -/

/-- The answer of an operation that runs out of memory exactly if some condition holds,
and does not fail otherwise. -/
structure RunsOutIff {α : Type} (full : Prop) (answer : Except Fault α) : Prop where
  failed_iff : answer = .error .outOfMemory ↔ full
  answered_iff : (∃ a, answer = .ok a) ↔ ¬ full

/-- Nothing but the room that an operation makes first can make it run out of memory. -/
theorem runsOutIff_bind {α : Type} {next : Unit → HeapM α} (ok : Intact h)
    (sane : h.limits.threshold ≤ h.limits.maxBytes)
    (goesOn : ∀ h', makeRoom held bytes h = (.ok (), h') → ∃ a, (next () h').1 = .ok a) :
    RunsOutIff (h.limits.maxBytes < h.footprint held + bytes)
      ((makeRoom held bytes >>= next) h).1 := by
  have room : (makeRoom held bytes h).1 = _ := makeRoom_fst ok sane
  rw [bind_apply]
  rcases run : makeRoom held bytes h with ⟨r, h'⟩
  rw [run] at room
  by_cases full : h.limits.maxBytes < h.footprint held + bytes
  · rw [if_pos full] at room
    cases room
    exact ⟨iff_of_true rfl full, iff_of_false nofun (not_not.mpr full)⟩
  · rw [if_neg full] at room
    cases room
    obtain ⟨a, answer⟩ := goesOn h' run
    have failed : (next () h').1 ≠ .error .outOfMemory := by
      rw [answer]
      nofun
    exact ⟨iff_of_false failed full, iff_of_true ⟨a, answer⟩ full⟩

theorem allocPlain_apply (held : ClassId → Bool) (h : Heap) :
    allocPlain held h = alloc held (.ordinary (some h.objectPrototype)) h := by
  unfold allocPlain
  rw [get_bind_apply]

theorem runsOutIff_alloc (ok : Intact h) (sane : h.limits.threshold ≤ h.limits.maxBytes)
    (obj : HostObject) :
    RunsOutIff (h.limits.maxBytes < h.footprint held + obj.size) (alloc held obj h).1 :=
  runsOutIff_bind ok sane fun h' _ => ⟨(h'.place obj).1, rfl⟩

/-- A live object is still there when room was made for its property. -/
theorem runsOutIff_defineOwn (ok : Intact h)
    (sane : h.limits.threshold ≤ h.limits.maxBytes) {o : Handle} {p : Property}
    (alive : Alive held h (.object o)) (storable : h.checkStorable p.value = .ok ())
    (missing : h.ownProperty o p.name = .ok none) :
    RunsOutIff (h.limits.maxBytes < h.footprint held + HostObject.propertyBytes)
      (defineOwn held o p h).1 := by
  rw [defineOwn_of_missing storable missing]
  refine runsOutIff_bind ok sane fun h' run => ?_
  have stays := alive.isValid_makeRoom ok HostObject.propertyBytes
  rw [run] at stays
  obtain ⟨obj, found⟩ := isValid_iff.mp stays
  exact ⟨(), by simp only [Heap.change, found]⟩

theorem ownProperty_of_hasOwn {o : Handle} {name : Text} (absent : h.hasOwn o name = .ok false) :
    h.ownProperty o name = .ok none := by
  unfold hasOwn at absent
  cases read : h.ownProperty o name with
  | error e =>
      rw [read] at absent
      cases absent
  | ok found =>
      rw [read] at absent
      cases found with
      | none => rfl
      | some q => cases absent

/-! ### Properties that making room keeps up -/

/-- A property of the meters of a heap, which are its count, its limits and its
collections: the operations keep it that make room for something and then put it in, and
so do changes that add no property to an object. -/
structure Metered (I : Heap → Prop) : Prop where
  /-- Collections keep it. -/
  collect : ∀ held h, I h → I (h.collect held)
  /-- Allocations keep it. -/
  alloc : ∀ held obj, Preserves I (alloc held obj)
  /-- Making room for a property and adding it keeps it. -/
  add : ∀ held o p, Preserves I
    (makeRoom held HostObject.propertyBytes >>= fun _ => change o (withAdded p))
  /-- Stores of an object with no more properties keep it. -/
  store : ∀ o obj new h, h.object o = .ok obj →
    new.properties.length ≤ obj.properties.length → I h → I (h.store o.index new)
  /-- Changes beside the table and the meters keep it. -/
  beside : ∀ h h', SameTable h h' → h'.limits = h.limits → h'.scheduled = h.scheduled →
    h'.collections = h.collections → I h → I h'

theorem length_update (ps : List Property) (new : Property) :
    (Property.update ps new).length = ps.length := by
  induction ps with
  | nil => rfl
  | cons p ps ih =>
      unfold Property.update
      split <;> simp [ih]

theorem length_remove_le (ps : List Property) (name : Text) :
    (Property.remove ps name).length ≤ ps.length := by
  induction ps with
  | nil => exact Nat.le_refl _
  | cons p ps ih =>
      unfold Property.remove
      split <;> simp [ih]

namespace Metered

variable {I : Heap → Prop} (metered : Metered I)
include metered

theorem change (o : Handle) {f : HostObject → HostObject}
    (le : ∀ obj, (f obj).properties.length ≤ obj.properties.length) :
    Preserves I (change o f) := by
  refine Preserves.of_state fun h hs => ?_
  unfold Heap.change
  cases found : h.object o with
  | ok obj => exact metered.store o obj (f obj) h found (le obj) hs
  | error e => exact hs

theorem withUpdated (o : Handle) (p : Property) : Preserves I (Heap.change o (withUpdated p)) :=
  metered.change o fun obj => Nat.le_of_eq (length_update obj.properties p)

theorem defineOwn (held : ClassId → Bool) (o : Handle) (p : Property) :
    Preserves I (defineOwn held o p) := by
  refine (preserves_reading _).bind fun _ => (preserves_reading _).bind fun old => ?_
  cases old with
  | some _ => exact metered.withUpdated o p
  | none => exact metered.add held o p

theorem putOwn (held : ClassId → Bool) (o : Handle) (p : Property) :
    Preserves I (putOwn held o p) := by
  refine (preserves_reading _).bind fun _ => (preserves_reading _).bind fun old => ?_
  cases old with
  | some old =>
      refine Preserves.ite (fun _ => Preserves.pure _) fun _ => ?_
      exact (metered.withUpdated o _).bind fun _ => Preserves.pure _
  | none => exact (metered.defineOwn held o p).bind fun _ => Preserves.pure _

theorem deleteOwn (o : Handle) (name : Text) : Preserves I (deleteOwn o name) := by
  refine (preserves_reading _).bind fun old => ?_
  cases old with
  | none => exact Preserves.pure _
  | some old =>
      refine Preserves.ite (fun _ => Preserves.pure _) fun _ => ?_
      refine (metered.change o fun obj => ?_).bind fun _ => Preserves.pure _
      exact length_remove_le obj.properties name

theorem lasting (held : ClassId → Bool) : Lasting held fun _ => I where
  alloc _ name call h hs := (metered.alloc held (h.functionObject name call)).state hs
  defineOwn _ o p := metered.defineOwn held o p
  push _ v h hs := metered.beside h (h.pushRoot v) ⟨rfl, rfl, rfl, rfl, rfl⟩ rfl rfl rfl hs
  pop _ _ h hs := metered.beside h h.popRoot ⟨rfl, rfl, rfl, rfl, rfl⟩ rfl rfl rfl hs

/-- **Every command keeps it.** -/
theorem unbroken : Unbroken I := by
  intro held h c hs
  have lasting := metered.lasting held
  by_cases hb : c.isBeside = true
  · have eq := c.run_eq_of_isBeside held h hb
    exact metered.beside h _ (c.run_beside held h hb).1 (congrArg Heap.limits eq :)
      (congrArg Heap.scheduled eq :) (congrArg Heap.collections eq :) hs
  · cases c with
    | collect => exact metered.collect held h hs
    | allocPlain =>
        rw [Command.run, allocPlain_apply]
        exact (metered.alloc held _).state hs
    | allocFunction name call => exact (lasting.allocFunction #[] name call).state hs
    | allocConstructor made construct => exact (metered.alloc held _).state hs
    | prototypeOf c =>
        refine (lasting.prototypeOf #[] (fun _ => metered.alloc held _) ?_ c.chain).state hs
        exact fun id proto h hs => metered.beside h (h.recordPrototype id proto)
          ⟨rfl, rfl, rfl, rfl, rfl⟩ rfl rfl rfl hs
    | allocInstance c data proto => exact (metered.alloc held _).state hs
    | defineOwn o p => exact (metered.defineOwn held o p).state hs
    | putOwn o p => exact (metered.putOwn held o p).state hs
    | deleteOwn o name => exact (metered.deleteOwn o name).state hs
    | setPrototype o p =>
        have keep : Preserves I (setPrototype o p) :=
          (preserves_reading _).bind fun _ => (preserves_reading _).bind fun _ =>
            metered.change o fun _ => Nat.le_refl _
        exact keep.state hs
    | setPrivate o data =>
        have keep : Preserves I (setPrivate o data) :=
          metered.change o fun _ => Nat.le_refl _
        exact keep.state hs
    | settle =>
        exact metered.beside h { h with reaped := [] } ⟨rfl, rfl, rfl, rfl, rfl⟩ rfl rfl rfl hs
    | _ => exact absurd rfl hb

end Metered

/-! ### The count stays within the limit -/

/-- The bytes that the two objects count with which a heap starts. -/
def intrinsicBytes (h : Heap) : Nat := ((intrinsics h.id).map HostObject.size).sum

/-- The heap is intact and counts no more than its limit, or than it started with. -/
structure Bounded (h : Heap) : Prop where
  intact : Intact h
  used_le : h.used ≤ max h.limits.maxBytes h.intrinsicBytes

theorem bounded_new (id : HeapId) (limits : Limits) (mode : CollectionMode) :
    Bounded (new id limits mode) where
  intact := intact_new id limits mode
  used_le := Nat.le_max_right _ _

namespace Bounded

theorem beside (ok : Bounded h) (same : SameTable h h') (limits : h'.limits = h.limits) :
    Bounded h' where
  intact := ok.intact.congr same
  used_le := by
    rw [same.used, limits, intrinsicBytes, same.id]
    exact ok.used_le

theorem collect (ok : Bounded h) (held : ClassId → Bool) : Bounded (h.collect held) where
  intact := ok.intact.collect held
  used_le := by
    rw [used_collect ok.intact]
    exact Nat.le_trans (footprint_le_used ok.intact held) ok.used_le

/-- What is placed may count as much as there is room for. -/
theorem place {obj : HostObject} (ok : Bounded h) (room : h.used + obj.size ≤ h.limits.maxBytes) :
    Bounded (h.place obj).2 where
  intact := stable_intact.place obj h ok.intact
  used_le := by
    have used : (h.place obj).2.used = h.used + obj.size := by
      unfold Heap.place
      split <;> rfl
    have limits : (h.place obj).2.limits = h.limits := by
      unfold Heap.place
      split <;> rfl
    rw [used, limits]
    exact Nat.le_trans room (Nat.le_max_left _ _)

end Bounded

/-- A store counts the new object in the place of the old one. -/
theorem used_store_add (con : Consistent h) {o : Handle} {obj : HostObject}
    (found : h.object o = .ok obj) (new : HostObject) :
    (h.store o.index new).used + obj.size = h.used + new.size := by
  obtain ⟨-, s, slot, -, occupied⟩ := object_eq_ok_iff.mp found
  have bytes : s.bytes = obj.size := con.bytes_of_occupied o.index s obj slot occupied
  have counted : h.bytesAt o.index = obj.size := by
    rw [bytesAt, slot, Option.map_some, Option.getD_some, bytes]
  have le : obj.size ≤ h.used := by
    have sum := sum_map_modify Slot.bytes Slot.vacate h.slots.toList
      (i := o.index) (s := s) (by simpa using slot)
    have used := con.used_eq
    simp only [Slot.vacate] at sum
    omega
  show rebalance h.used (h.bytesAt o.index) new.size + obj.size = h.used + new.size
  rw [counted, rebalance]
  split <;> omega

theorem Bounded.store {o : Handle} {obj new : HostObject} (ok : Bounded h)
    (found : h.object o = .ok obj)
    (room : new.size ≤ obj.size ∨ h.used + new.size ≤ h.limits.maxBytes + obj.size) :
    Bounded (h.store o.index new) where
  intact := stable_intact.store o obj new h found ok.intact
  used_le := by
    have used := used_store_add ok.intact.toConsistent found new
    have le := ok.used_le
    show (h.store o.index new).used ≤ max h.limits.maxBytes h.intrinsicBytes
    omega

/-- Room is promised only to who has it. -/
theorem meets_makeRoom_bounded (held : ClassId → Bool) (bytes : Nat) :
    Meets Bounded (makeRoom held bytes)
      (fun _ h => Bounded h ∧ h.used + bytes ≤ h.limits.maxBytes) Bounded := by
  refine fun h ok => ?_
  have after : Bounded (makeRoom held bytes h).2 := by
    rcases makeRoom_state held bytes h with eq | eq | eq
    · rwa [eq]
    · rw [eq]
      exact ok.beside ⟨rfl, rfl, rfl, rfl, rfl⟩ rfl
    · rw [eq]
      exact ok.collect held
  refine ⟨fun _ h' run => ⟨?_, ?_⟩, fun e h' run => ?_⟩
  · rwa [run] at after
  · rw [makeRoom_eq_verdict, verdict] at run
    split at run
    · cases run
    · next room =>
        cases run
        exact Nat.not_lt.mp room
  · rwa [run] at after

theorem metered_bounded : Metered Bounded where
  collect held _ ok := ok.collect held
  alloc held obj := Meets.bind (meets_makeRoom_bounded held obj.size) fun _ =>
    Meets.of_state fun _ ⟨ok, room⟩ => ok.place room
  add held o p := by
    refine Meets.bind (meets_makeRoom_bounded held _) fun _ => ?_
    refine Meets.of_state fun h ⟨ok, room⟩ => ?_
    unfold Heap.change
    cases found : h.object o with
    | ok obj =>
        have size : (withAdded p obj).size = obj.size + HostObject.propertyBytes := by
          simp only [HostObject.size, withAdded, List.length_append, List.length_singleton,
            Nat.add_mul, Nat.one_mul, Nat.add_assoc]
        exact ok.store found (Or.inr (by omega))
    | error e => exact ok
  store o obj new h found le ok := by
    have size : new.size ≤ obj.size :=
      Nat.add_le_add_left (Nat.mul_le_mul_right HostObject.propertyBytes le) _
    exact ok.store found (Or.inl size)
  beside _ _ same limits _ _ ok := ok.beside same limits

/-- **The count of every reachable heap is within the limit**, but for the two objects
that it starts with. -/
theorem Reachable.bounded (reachable : Reachable h) : Bounded h := by
  induction reachable with
  | new id limits mode => exact bounded_new id limits mode
  | step _ held c ih => exact metered_bounded.unbroken held _ c ih

/-- **Only live objects use up memory.**  Unless its threshold is above its limit, a
reachable heap refuses to allocate an object, or to add a property to a live object,
exactly if what its live objects count leaves no room for it below the limit; in either
mode, and however much garbage there is.  And whatever the limits are, the heap counts no
more than the limit, or than the two objects that it started with. -/
theorem out_of_memory_iff (reachable : Reachable h) :
    (h.limits.threshold ≤ h.limits.maxBytes → ∀ held : ClassId → Bool,
      RunsOutIff (h.limits.maxBytes < h.footprint held + HostObject.baseBytes)
        (allocPlain held h).1 ∧
      ∀ o p, Alive held h (.object o) → h.checkStorable p.value = .ok () →
        h.hasOwn o p.name = .ok false →
        RunsOutIff (h.limits.maxBytes < h.footprint held + HostObject.propertyBytes)
          (defineOwn held o p h).1) ∧
    h.used ≤ max h.limits.maxBytes h.intrinsicBytes := by
  have ok := reachable.intact
  refine ⟨fun sane held => ⟨?_, fun o p alive storable absent => ?_⟩, reachable.bounded.used_le⟩
  · rw [allocPlain_apply]
    exact runsOutIff_alloc ok sane (.ordinary (some h.objectPrototype))
  · exact runsOutIff_defineOwn ok sane alive storable (ownProperty_of_hasOwn absent)

/-- A deferred heap that is full: two of its five objects are garbage. -/
def crowded : Heap :=
  after (new ⟨0⟩ ⟨600, 480⟩ .deferred)
    (turnsOf [.allocPlain, .pin (.object ⟨⟨0⟩, 2, 0⟩), .allocPlain, .allocPlain])

/-- Its garbage makes room for another object, and for a property of the pinned one. -/
theorem out_of_memory_iff_crowded :
    crowded.used = crowded.limits.maxBytes ∧
      (∃ o, (allocPlain (fun _ => false) crowded).1 = .ok o) ∧
      ∃ a, (defineOwn (fun _ => false) ⟨⟨0⟩, 2, 0⟩ ⟨Text.ofString "x", .null, .none⟩
        crowded).1 = .ok a := by
  have reachable : Reachable crowded := (Reachable.new _ _ _).after _
  have footprint : crowded.footprint (fun _ => false) = 360 := by
    rw [← used_collect reachable.intact]
    decide +kernel
  have alive : Alive (fun _ => false) crowded (.object ⟨⟨0⟩, 2, 0⟩) :=
    .pin (by decide +kernel) (by decide +kernel)
  have max : crowded.limits.maxBytes = 600 := by decide +kernel
  obtain ⟨sane, -⟩ := out_of_memory_iff reachable
  obtain ⟨object, property⟩ := sane (by decide +kernel) fun _ => false
  rw [max, footprint] at object property
  refine ⟨by decide +kernel, object.answered_iff.mpr (by decide), ?_⟩
  exact (property _ _ alive rfl (by decide +kernel)).answered_iff.mpr (by decide)

end HostObjects.Heap
