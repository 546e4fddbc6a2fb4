import HostObjects.Proofs.Heap.Command
import HostObjects.View.Session
import Mathlib.Data.List.Count

/-!
# How long a handle names its object

A handle is plain data and outlives its object.  What keeps it from naming the
next object in the same slot is the generation of the slot, which counts how often
the slot was emptied, but in 32 bits.

The history of a heap is a list of events, oldest first: a handle is issued, a
slot is freed.  `Life past h` are the heaps that some steps lead to, together with
their history.  The generation of a slot is then the number of its frees up to a
multiple of `2 ^ 32` (`Recorded`), so a handle is valid as long as its slot was
not freed since, and again only after a multiple of `2 ^ 32` frees
(`handle_names_one_object`).
-/

namespace HostObjects.Heap

/-! ### Histories -/

/-- What can happen to a slot. -/
inductive SlotEvent where
  /-- An object was placed in its slot and got the handle. -/
  | issued (o : Handle)
  /-- The slot was emptied. -/
  | freed (index : Nat)
deriving DecidableEq

/-- The slot that the event frees. -/
def SlotEvent.freed? : SlotEvent → Option Nat
  | issued _ => none
  | freed index => some index

/-- How often a slot is freed in a history. -/
def freedTimes (index : Nat) (past : List SlotEvent) : Nat := past.count (.freed index)

/-- The slots that hold an object in one heap and none in another, in order. -/
def emptiedBy (h h' : Heap) : List Nat :=
  (List.range h.slots.size).filter fun i => h.isOccupiedAt i && !h'.isOccupiedAt i

/-- The heaps that steps lead to, each with its history. -/
inductive Life : List SlotEvent → Heap → Prop
  | new (id : HeapId) (limits : Limits) (mode : CollectionMode) :
      Life [.issued ⟨id, objectPrototypeIndex, 0⟩, .issued ⟨id, functionPrototypeIndex, 0⟩]
        (new id limits mode)
  | collect {past : List SlotEvent} {h : Heap} (life : Life past h)
      (held : ClassId → Bool) :
      Life (past ++ (h.emptiedBy (h.collect held)).map .freed) (h.collect held)
  | place {past : List SlotEvent} {h : Heap} (life : Life past h) (obj : HostObject) :
      Life (past ++ [.issued (h.place obj).1]) (h.place obj).2
  | store {past : List SlotEvent} {h : Heap} (life : Life past h) {o : Handle}
      {obj : HostObject} (found : h.object o = .ok obj) (new : HostObject) :
      Life past (h.store o.index new)
  | beside {past : List SlotEvent} {h h' : Heap} (life : Life past h)
      (same : SameTable h h') : Life past h'

variable {past : List SlotEvent} {h h' : Heap} {held : ClassId → Bool}

theorem Life.intact (life : Life past h) : Intact h := by
  induction life with
  | new id limits mode => exact intact_new id limits mode
  | collect _ held ih => exact ih.collect held
  | place _ obj ih => exact stable_intact.place obj _ ih
  | store _ found new ih => exact stable_intact.store _ _ new _ found ih
  | beside _ same ih => exact ih.congr same

/-! ### Events in a history -/

theorem freedTimes_append (index : Nat) (past more : List SlotEvent) :
    freedTimes index (past ++ more) = freedTimes index past + freedTimes index more :=
  List.count_append

@[simp] theorem freedTimes_nil (index : Nat) : freedTimes index [] = 0 := rfl

@[simp] theorem freedTimes_issued (index : Nat) (o : Handle) (past : List SlotEvent) :
    freedTimes index (.issued o :: past) = freedTimes index past := by
  simp [freedTimes]

/-- Slots freed together are freed once each. -/
theorem freedTimes_freed {index : Nat} {indexes : List Nat} (nodup : indexes.Nodup) :
    freedTimes index (indexes.map .freed) = if index ∈ indexes then 1 else 0 := by
  have injective : Function.Injective SlotEvent.freed := fun _ _ => SlotEvent.freed.inj
  unfold freedTimes
  rw [List.count_map_of_injective indexes SlotEvent.freed injective, nodup.count]

/-- An event of a longer history is one of the former history or one of the new
events. -/
theorem split_append {more before since : List SlotEvent} {e : SlotEvent}
    (eq : past ++ more = before ++ e :: since) :
    (∃ since', since = since' ++ more ∧ past = before ++ e :: since') ∨
      ∃ before', before = past ++ before' ∧ more = before' ++ e :: since := by
  rcases List.append_eq_append_iff.mp eq with ⟨mid, hbefore, hmore⟩ | ⟨mid, hpast, hsince⟩
  · exact Or.inr ⟨mid, hbefore, hmore⟩
  · cases mid with
    | nil => exact Or.inr ⟨[], by simpa using hpast.symm, by simpa using hsince.symm⟩
    | cons e' since' =>
        obtain ⟨rfl, rfl⟩ := List.cons.inj hsince
        exact Or.inl ⟨since', rfl, hpast⟩

/-! ### The invariant -/

/-- What the history says about the slots. -/
structure Recorded (past : List SlotEvent) (h : Heap) : Prop where
  /-- A generation counts frees, in 32 bits. -/
  generation : ∀ i, h.generationAt i = UInt32.ofNat (freedTimes i past)
  /-- What lies in a slot was given its handle. -/
  occupied : ∀ i, h.isOccupiedAt i = true → .issued ⟨h.id, i, h.generationAt i⟩ ∈ past
  /-- A handle has the generation of its time, and its object stays until it is
  freed. -/
  issued : ∀ before o since, past = before ++ .issued o :: since →
    o.heap = h.id ∧ o.generation = UInt32.ofNat (freedTimes o.index before) ∧
      (freedTimes o.index since = 0 → h.isOccupiedAt o.index = true)
  /-- Between two handles of one slot the slot was freed. -/
  reissued : ∀ before o between p since,
    past = before ++ .issued o :: (between ++ .issued p :: since) → p.index = o.index →
    0 < freedTimes o.index between

theorem recorded_new (id : HeapId) (limits : Limits) (mode : CollectionMode) :
    Recorded
      [.issued ⟨id, objectPrototypeIndex, 0⟩, .issued ⟨id, functionPrototypeIndex, 0⟩]
      (new id limits mode) where
  generation := by
    intro i
    rcases i with _ | _ | i <;> rfl
  occupied := by
    intro i hi
    rcases i with _ | _ | i
    · exact List.mem_cons_self
    · exact List.mem_cons_of_mem _ List.mem_cons_self
    · simp [isOccupiedAt, new, intrinsics] at hi
  issued := by
    intro before o since eq
    rcases before with _ | ⟨e, _ | ⟨e', before⟩⟩
    · obtain ⟨he, -⟩ := List.cons.inj eq
      cases he
      exact ⟨rfl, rfl, fun _ => rfl⟩
    · obtain ⟨he, eq⟩ := List.cons.inj eq
      obtain ⟨he', -⟩ := List.cons.inj eq
      cases he
      cases he'
      exact ⟨rfl, rfl, fun _ => rfl⟩
    · simp at eq
  reissued := by
    intro before o between p since eq same
    -- The two handles of a new heap are of different slots.
    rcases before with _ | ⟨e, before⟩
    · rcases between with _ | ⟨e, between⟩
      · simp only [List.nil_append, List.cons.injEq, SlotEvent.issued.injEq] at eq
        obtain ⟨rfl, rfl, -⟩ := eq
        cases same
      · simp at eq
    · have := congrArg List.length eq
      simp at this
      omega

/-- The history speaks of the identity of the heap, of its generations and of the
occupied slots. -/
theorem Recorded.congr (recorded : Recorded past h) (hid : h'.id = h.id)
    (hgen : ∀ i, h'.generationAt i = h.generationAt i)
    (hocc : ∀ i, h'.isOccupiedAt i = h.isOccupiedAt i) : Recorded past h' where
  generation i := (hgen i).trans (recorded.generation i)
  occupied i hi := by
    rw [hocc] at hi
    rw [hid, hgen]
    exact recorded.occupied i hi
  issued before o since eq := by
    rw [hid, hocc]
    exact recorded.issued before o since eq
  reissued := recorded.reissued

/-! ### Collections -/

theorem mem_emptiedBy {i : Nat} :
    i ∈ h.emptiedBy h' ↔ h.isOccupiedAt i = true ∧ h'.isOccupiedAt i = false := by
  simp only [emptiedBy, List.mem_filter, List.mem_range, Bool.and_eq_true,
    Bool.not_eq_true']
  refine ⟨And.right, fun occ => ⟨?_, occ⟩⟩
  obtain ⟨s, _, hs, -⟩ := isOccupiedAt_iff.mp occ.1
  exact (Array.getElem?_eq_some_iff.mp hs).1

theorem nodup_emptiedBy (h h' : Heap) : (h.emptiedBy h').Nodup :=
  List.nodup_range.filter _

/-- A collection advances the generations of the slots it empties, and fills none. -/
theorem slot_collect (held : ClassId → Bool) (h : Heap) (i : Nat) :
    (i ∈ h.emptiedBy (h.collect held) ∧
        (h.collect held).generationAt i = h.generationAt i + 1) ∨
      (i ∉ h.emptiedBy (h.collect held) ∧
        (h.collect held).generationAt i = h.generationAt i ∧
        (h.collect held).isOccupiedAt i = h.isOccupiedAt i) := by
  rw [mem_emptiedBy]
  unfold isOccupiedAt generationAt
  rw [collect_getElem?]
  cases hs : h.slots[i]? with
  | none => simp
  | some s =>
      by_cases hg : isGarbage (h.prepared held).marked.marks i s = true
      · have hocc := (isGarbage_iff.mp hg).1
        refine Or.inl ?_
        simp [hg, Slot.vacate, Slot.isOccupied, hocc]
      · refine Or.inr ?_
        simp [hg]

theorem Recorded.collect (recorded : Recorded past h) (held : ClassId → Bool) :
    Recorded (past ++ (h.emptiedBy (h.collect held)).map .freed) (h.collect held) := by
  have nodup := nodup_emptiedBy h (h.collect held)
  have noHandle : ∀ o : Handle,
      SlotEvent.issued o ∉ (h.emptiedBy (h.collect held)).map SlotEvent.freed := by simp
  constructor
  case generation =>
    intro i
    rw [freedTimes_append, freedTimes_freed nodup]
    rcases slot_collect held h i with ⟨mem, gen⟩ | ⟨notMem, gen, -⟩
    · rw [gen, if_pos mem, recorded.generation, UInt32.ofNat_add]
      rfl
    · rw [gen, if_neg notMem, recorded.generation, Nat.add_zero]
  case occupied =>
    intro i occ
    rcases slot_collect held h i with ⟨mem, -⟩ | ⟨-, gen, occ'⟩
    · rw [(mem_emptiedBy.mp mem).2] at occ
      cases occ
    · rw [occ'] at occ
      rw [gen]
      exact List.mem_append_left _ (recorded.occupied i occ)
  case issued =>
    intro before o since eq
    rcases split_append eq with ⟨since', rfl, hpast⟩ | ⟨before', -, hmore⟩
    · obtain ⟨hheap, hgen, stays⟩ := recorded.issued before o since' hpast
      refine ⟨hheap, hgen, fun unfreed => ?_⟩
      rw [freedTimes_append, freedTimes_freed nodup] at unfreed
      have occ := stays (Nat.eq_zero_of_add_eq_zero_right unfreed)
      rcases slot_collect held h o.index with ⟨mem, -⟩ | ⟨-, -, occ'⟩
      · rw [if_pos mem] at unfreed
        cases unfreed
      · exact occ'.trans occ
    · exact absurd (hmore ▸ List.mem_append_right _ List.mem_cons_self) (noHandle o)
  case reissued =>
    intro before o between p since eq same
    rcases split_append eq with ⟨since', hsince, hpast⟩ | ⟨before', -, hmore⟩
    · rcases split_append hsince.symm with ⟨since'', -, rfl⟩ | ⟨_, -, hmore⟩
      · exact recorded.reissued before o between p since'' hpast same
      · exact absurd (hmore ▸ List.mem_append_right _ List.mem_cons_self) (noHandle p)
    · exact absurd (hmore ▸ List.mem_append_right _ List.mem_cons_self) (noHandle o)

/-! ### Placements -/

theorem Recorded.place (recorded : Recorded past h) (empty : FreeIsEmpty h)
    (obj : HostObject) :
    Recorded (past ++ [.issued (h.place obj).1]) (h.place obj).2 := by
  obtain ⟨vacant, gen⟩ := place_fst empty obj
  -- The one new event, wherever it is found, is the last.
  have last : ∀ {before' since : List SlotEvent} {o : Handle},
      [.issued (h.place obj).1] = before' ++ .issued o :: since →
      before' = [] ∧ since = [] ∧ o = (h.place obj).1 := by
    intro before' since o eq
    rcases before' with _ | ⟨e, before'⟩
    · simp_all
    · simp at eq
  constructor
  case generation =>
    intro i
    rw [generationAt_place empty, recorded.generation, freedTimes_append]
    simp
  case occupied =>
    intro i occ
    rw [isOccupiedAt_place empty, Bool.or_eq_true, beq_iff_eq] at occ
    rw [generationAt_place empty, place_id]
    rcases occ with rfl | occ
    · rw [← gen, ← place_fst_heap h obj]
      exact List.mem_append_right _ List.mem_cons_self
    · exact List.mem_append_left _ (recorded.occupied i occ)
  case issued =>
    intro before o since eq
    rw [place_id, isOccupiedAt_place empty]
    rcases split_append eq with ⟨since', rfl, hpast⟩ | ⟨before', rfl, hmore⟩
    · obtain ⟨hheap, hgen, stays⟩ := recorded.issued before o since' hpast
      refine ⟨hheap, hgen, fun unfreed => ?_⟩
      rw [freedTimes_append] at unfreed
      rw [stays (Nat.eq_zero_of_add_eq_zero_right unfreed), Bool.or_true]
    · obtain ⟨rfl, rfl, rfl⟩ := last hmore
      refine ⟨place_fst_heap h obj, ?_, fun _ => by simp⟩
      rw [gen, recorded.generation, List.append_nil]
  case reissued =>
    intro before o between p since eq same
    rcases split_append eq with ⟨since', hsince, hpast⟩ | ⟨before', -, hmore⟩
    · rcases split_append hsince.symm with ⟨since'', -, rfl⟩ | ⟨before', rfl, hmore⟩
      · exact recorded.reissued before o between p since'' hpast same
      · obtain ⟨rfl, -, rfl⟩ := last hmore
        -- A slot that was not freed since is still occupied, and this one was vacant.
        rw [List.append_nil, Nat.pos_iff_ne_zero]
        intro unfreed
        have occ := (recorded.issued before o since' hpast).2.2 unfreed
        rw [← same, vacant] at occ
        cases occ
    · obtain ⟨-, hnil, -⟩ := last hmore
      simp at hnil

/-- **The history of a heap says all about its slots.** -/
theorem Life.recorded (life : Life past h) : Recorded past h := by
  induction life with
  | new id limits mode => exact recorded_new id limits mode
  | collect _ held ih => exact ih.collect held
  | place life obj ih => exact ih.place life.intact.freeIsEmpty obj
  | store _ found new ih =>
      exact ih.congr rfl (generationAt_store _ _) (isOccupiedAt_store found)
  | beside _ same ih =>
      refine ih.congr same.id ?_ ?_
      · intro i
        rw [generationAt, same.slots, generationAt]
      · intro i
        rw [isOccupiedAt, same.slots, isOccupiedAt]

/-! ### Commands continue a history -/

/-- The heap goes on from a history, and the objects that died meanwhile are those
of the slots that were freed, in order. -/
def Continues (past : List SlotEvent) (reaped : List Reaped) (h : Heap) : Prop :=
  ∃ more dead, Life (past ++ more) h ∧ h.reaped = reaped ++ dead ∧
    more.filterMap SlotEvent.freed? = dead.map fun r => r.handle.index

theorem emptiedBy_collect (held : ClassId → Bool) (h : Heap) :
    h.emptiedBy (h.collect held) =
      (h.prepared held).garbage (h.prepared held).marked.marks := by
  refine List.filter_congr fun i _ => ?_
  have slots : (h.prepared held).slots = h.slots := rfl
  unfold isOccupiedAt
  rw [collect_getElem?, slots]
  cases hs : h.slots[i]? with
  | none => rfl
  | some s =>
      by_cases hg : isGarbage (h.prepared held).marked.marks i s = true
      · simp [hg, Slot.vacate, Slot.isOccupied, (isGarbage_iff.mp hg).1]
      · simp [hg]

/-- What is taken out of the garbage has the indexes of the garbage. -/
theorem map_index_reap (h : Heap) (marks : Array Bool) :
    ((h.garbage marks).filterMap h.reap?).map (fun r => r.handle.index) =
      h.garbage marks := by
  have each : ∀ i ∈ h.garbage marks, ∃ r, h.reap? i = some r ∧ r.handle.index = i := by
    intro i mem
    obtain ⟨s, hs, hg⟩ := mem_garbage_iff.mp mem
    obtain ⟨obj, hobj⟩ := Option.isSome_iff_exists.mp (isGarbage_iff.mp hg).1
    exact ⟨⟨⟨h.id, i, s.generation⟩, obj⟩, by simp [reap?, hs, hobj], rfl⟩
  -- The slots are not touched here, so the induction is on the indexes alone.
  generalize h.garbage marks = indexes at each
  induction indexes with
  | nil => rfl
  | cons i indexes ih =>
      obtain ⟨r, hr, hindex⟩ := each i List.mem_cons_self
      rw [List.filterMap_cons_some hr, List.map_cons, hindex,
        ih fun j mem => each j (List.mem_cons_of_mem _ mem)]

theorem stable_continues (past : List SlotEvent) (reaped : List Reaped) :
    Stable (Continues past reaped) where
  collect held h := by
    rintro ⟨more, dead, life, hreaped, hdead⟩
    have swept : (h.collect held).reaped = h.reaped ++
        ((h.prepared held).garbage (h.prepared held).marked.marks).filterMap
          (h.prepared held).reap? := rfl
    refine ⟨more ++ (h.emptiedBy (h.collect held)).map .freed, _, ?_,
      by rw [swept, hreaped, List.append_assoc], ?_⟩
    · rw [← List.append_assoc]
      exact life.collect held
    · have freed : (SlotEvent.freed? ∘ SlotEvent.freed) = some := rfl
      rw [List.filterMap_append, hdead, List.map_append, map_index_reap,
        List.filterMap_map, freed, List.filterMap_some, emptiedBy_collect]
  place obj h := by
    rintro ⟨more, dead, life, hreaped, hdead⟩
    refine ⟨more ++ [.issued (h.place obj).1], dead, ?_, ?_, ?_⟩
    · rw [← List.append_assoc]
      exact life.place obj
    · rw [place_reaped, hreaped]
    · rw [List.filterMap_append, hdead]
      exact List.append_nil _
  store o obj new h found := by
    rintro ⟨more, dead, life, hreaped, hdead⟩
    exact ⟨more, dead, life.store found new, hreaped, hdead⟩
  beside h h' same kept := by
    rintro ⟨more, dead, life, hreaped, hdead⟩
    exact ⟨more, dead, life.beside same, kept.trans hreaped, hdead⟩

/-- **Every command continues the history**, by freeing the slots of the objects it
leaves to their finalizers. -/
theorem Life.run (life : Life past h) (held : ClassId → Bool) (c : Command) :
    ∃ more, Life (past ++ more) (c.run held h) ∧
      more.filterMap SlotEvent.freed? =
        ((c.run held h).reaped.drop h.reaped.length).map fun r => r.handle.index := by
  by_cases hc : c = .settle
  · subst hc
    refine ⟨[], ?_, by simp [Command.run]⟩
    rw [List.append_nil]
    exact life.beside ⟨rfl, rfl, rfl, rfl, rfl⟩
  · have start : Continues past h.reaped h := ⟨[], [], by simpa using life, by simp, rfl⟩
    obtain ⟨more, dead, life', hreaped, hdead⟩ :=
      (stable_continues past h.reaped).run held hc start
    exact ⟨more, life', by rw [hreaped, List.drop_left, hdead]⟩

/-- Every reachable heap has a history. -/
theorem Reachable.life (reachable : Reachable h) : ∃ past, Life past h := by
  induction reachable with
  | new id limits mode => exact ⟨_, .new id limits mode⟩
  | step _ held c ih =>
      obtain ⟨past, life⟩ := ih
      obtain ⟨more, life', -⟩ := life.run held c
      exact ⟨past ++ more, life'⟩

/-! ### Handles -/

/-- The count of frees in 32 bits tells numbers of frees apart up to `2 ^ 32`. -/
theorem ofNat_add_eq_iff (n m : Nat) :
    UInt32.ofNat (n + m) = UInt32.ofNat n ↔ 2 ^ 32 ∣ m := by
  rw [UInt32.ofNat_eq_iff_mod_eq_toNat, UInt32.toNat_ofNat']
  omega

/-- A handle that was issued is valid iff its slot is occupied and was freed a
multiple of `2 ^ 32` times since. -/
theorem Life.isValid_iff (life : Life past h) {before since : List SlotEvent}
    {o : Handle} (eq : past = before ++ .issued o :: since) :
    h.isValid o = true ↔
      2 ^ 32 ∣ freedTimes o.index since ∧ h.isOccupiedAt o.index = true := by
  have recorded := life.recorded
  obtain ⟨hheap, hgen, -⟩ := recorded.issued before o since eq
  rw [isValid_iff_at, recorded.generation, hgen, eq, freedTimes_append, freedTimes_issued,
    ofNat_add_eq_iff]
  constructor
  · exact fun valid => ⟨valid.2.2, valid.2.1⟩
  · exact fun valid => ⟨hheap, valid.2, valid.1⟩

theorem managedValue_of_not_valid {σ : Type} {s : Session σ} {m : ManagedValue}
    {o : Handle} (value : m.value = .object o) (gone : s.heap.isValid o = false) :
    (Action.managedValue m : Action σ (Option Value)) s = (.ok none, s) := by
  unfold Action.managedValue
  rw [value]
  dsimp only
  have read : (Action.reading fun h => .ok (h.upgrade? o) : Action σ (Option Handle)) s =
      (.ok none, s) := by
    simp [Action.reading, upgrade?, gone]
  rw [bind_apply, read]
  rfl

/-- **A handle names the object it was issued for**, and nothing else until its slot
was freed `2 ^ 32` times.  In any history of a heap, which every command continues:
what is valid was issued; an issued handle is valid as long as its slot was not freed
since, and after that only in states where the slot was freed a positive multiple of
`2 ^ 32` times and is in use again; otherwise neither the handle, nor a weak
reference, nor a managed value reports an object; and a handle is issued again only
after as many frees. -/
theorem handle_names_one_object (life : Life past h) :
    (∀ held (c : Command), ∃ more, Life (past ++ more) (c.run held h) ∧
      more.filterMap SlotEvent.freed? =
        ((c.run held h).reaped.drop h.reaped.length).map fun r => r.handle.index) ∧
    (∀ o, h.isValid o = true → .issued o ∈ past) ∧
    (∀ before o since, past = before ++ .issued o :: since →
      (h.isValid o = true ↔
        freedTimes o.index since = 0 ∨
          (0 < freedTimes o.index since ∧ 2 ^ 32 ∣ freedTimes o.index since ∧
            h.isOccupiedAt o.index = true)) ∧
      (0 < freedTimes o.index since → ¬ 2 ^ 32 ∣ freedTimes o.index since →
        h.isValid o = false ∧ h.upgrade? o = none ∧
          ∀ (σ : Type) (s : Session σ) (m : ManagedValue), s.heap = h →
            m.value = .object o →
            (Action.managedValue m : Action σ (Option Value)) s = (.ok none, s))) ∧
    ∀ before o between since,
      past = before ++ .issued o :: (between ++ .issued o :: since) →
      0 < freedTimes o.index between ∧ 2 ^ 32 ∣ freedTimes o.index between := by
  have recorded := life.recorded
  refine ⟨fun held c => life.run held c, ?_, ?_, ?_⟩
  · intro o valid
    obtain ⟨hheap, occ, hgen⟩ := isValid_iff_at.mp valid
    have issued := recorded.occupied o.index occ
    rwa [hgen, ← hheap] at issued
  · intro before o since eq
    have valid_iff := life.isValid_iff eq
    refine ⟨?_, ?_⟩
    · rw [valid_iff]
      rcases Nat.eq_zero_or_pos (freedTimes o.index since) with unfreed | freed
      · have occ := (recorded.issued before o since eq).2.2 unfreed
        simp [unfreed, occ]
      · exact ⟨fun valid => Or.inr ⟨freed, valid⟩,
          fun valid => (valid.resolve_left (Nat.ne_of_gt freed)).2⟩
    · intro freed few
      have gone : h.isValid o = false := by
        rw [← Bool.not_eq_true, valid_iff]
        exact fun valid => few valid.1
      refine ⟨gone, by simp [upgrade?, gone], ?_⟩
      rintro σ s m rfl value
      exact managedValue_of_not_valid value gone
  · intro before o between since eq
    refine ⟨recorded.reissued before o between o since eq rfl, ?_⟩
    -- The two generations are counts of frees, at the two times.
    have first := (recorded.issued before o _ eq).2.1
    have second := (recorded.issued (before ++ .issued o :: between) o since (by simp [eq])).2.1
    rw [first, freedTimes_append, freedTimes_issued] at second
    exact (ofNat_add_eq_iff _ _).mp second.symm

/-- A heap with one object beside its prototypes. -/
def oneObject : Heap := ((new ⟨0⟩ .standard .synchronous).place (.ordinary none)).2

/-- The heap after a collection, with another object in the slot of the first. -/
def slotReused : Heap := ((oneObject.collect fun _ => false).place (.ordinary none)).2

theorem life_slotReused :
    Life [.issued ⟨⟨0⟩, 0, 0⟩, .issued ⟨⟨0⟩, 1, 0⟩, .issued ⟨⟨0⟩, 2, 0⟩, .freed 2,
      .issued ⟨⟨0⟩, 2, 1⟩] slotReused := by
  have life : Life _ slotReused :=
    (((Life.new ⟨0⟩ .standard .synchronous).place _).collect _).place _
  have freed : oneObject.emptiedBy (oneObject.collect fun _ => false) = [2] := by
    decide +kernel
  have again : ((oneObject.collect fun _ => false).place (.ordinary none)).1 =
      ⟨⟨0⟩, 2, 1⟩ := by
    decide +kernel
  -- The history comes with what was freed and issued; these are their values.
  change Life (_ ++ (oneObject.emptiedBy (oneObject.collect fun _ => false)).map .freed ++
    [.issued ((oneObject.collect fun _ => false).place (.ordinary none)).1]) _ at life
  rw [freed, again] at life
  exact life

/-- There the handle of the first object is not valid, and that of the second is. -/
theorem isValid_slotReused :
    slotReused.isValid ⟨⟨0⟩, 2, 0⟩ = false ∧ slotReused.isValid ⟨⟨0⟩, 2, 1⟩ = true := by
  obtain ⟨-, -, validity, -⟩ := handle_names_one_object life_slotReused
  have first := validity [.issued ⟨⟨0⟩, 0, 0⟩, .issued ⟨⟨0⟩, 1, 0⟩] ⟨⟨0⟩, 2, 0⟩
    [.freed 2, .issued ⟨⟨0⟩, 2, 1⟩] rfl
  have second := validity
    [.issued ⟨⟨0⟩, 0, 0⟩, .issued ⟨⟨0⟩, 1, 0⟩, .issued ⟨⟨0⟩, 2, 0⟩, .freed 2]
    ⟨⟨0⟩, 2, 1⟩ [] rfl
  exact ⟨(first.2 (by decide) (by decide)).1, second.1.mpr (Or.inl rfl)⟩

end HostObjects.Heap
