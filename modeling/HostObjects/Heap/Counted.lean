import HostObjects.Heap.Object

/-!
# Counted things

Pins, host roots and external edges are counted: each addition is undone by one removal, and a
removal without an addition does nothing. A `Counted` table has an entry for each thing that it
counts; a removal that leaves a count of zero takes the entry out. An `EdgeTable` has a row for each
node that edges leave, in which their targets are counted; a row without targets is taken out. So a
table knows a thing exactly as long as its count is not zero.
-/

namespace HostObjects

/-! ### Finite maps -/

/-- A finite map, as entries with different keys. -/
structure Assoc (κ ν : Type) where
  entries : List (κ × ν)
  nodup : (entries.map Prod.fst).Nodup

namespace Assoc

variable {κ ν : Type}

instance : EmptyCollection (Assoc κ ν) := ⟨⟨[], List.nodup_nil⟩⟩

/-- The keys that have a value. -/
def keys (m : Assoc κ ν) : List κ := m.entries.map Prod.fst

theorem keys_filterMap_sublist (f : κ → ν → Option ν) (es : List (κ × ν)) :
    ((es.filterMap fun e => (f e.1 e.2).map (e.1, ·)).map Prod.fst).Sublist
      (es.map Prod.fst) := by
  induction es with
  | nil => exact List.Sublist.refl _
  | cons e es ih =>
    rw [List.filterMap_cons]
    cases f e.1 e.2 with
    | none => exact ih.cons _
    | some v => exact ih.cons_cons _

/-- Changes the values, and takes some out. -/
def filterMap (f : κ → ν → Option ν) (m : Assoc κ ν) : Assoc κ ν where
  entries := m.entries.filterMap fun e => (f e.1 e.2).map (e.1, ·)
  nodup := m.nodup.sublist (keys_filterMap_sublist f m.entries)

variable [DecidableEq κ]

/-- The value of a key. -/
def get? (m : Assoc κ ν) (k : κ) : Option ν := (m.entries.find? fun e => e.1 = k).map Prod.snd

/-- Gives a key a value, or takes it out. -/
def set (k : κ) (v : Option ν) (m : Assoc κ ν) : Assoc κ ν where
  entries := v.toList.map (k, ·) ++ m.entries.filter fun e => e.1 ≠ k
  nodup := by
    have rest : ((m.entries.filter fun e => e.1 ≠ k).map Prod.fst).Nodup :=
      m.nodup.sublist (List.filter_sublist.map _)
    cases v with
    | none => exact rest
    | some v =>
      refine List.nodup_cons.mpr ⟨fun mem => ?_, rest⟩
      obtain ⟨e, mem, same⟩ := List.mem_map.mp mem
      simpa [same] using (List.mem_filter.mp mem).2

theorem get?_eq_some_iff {m : Assoc κ ν} {k : κ} {v : ν} :
    m.get? k = some v ↔ (k, v) ∈ m.entries := by
  obtain ⟨es, nodup⟩ := m
  show (es.find? fun e => e.1 = k).map Prod.snd = some v ↔ (k, v) ∈ es
  induction es with
  | nil => simp
  | cons e es ih =>
    rw [List.map_cons, List.nodup_cons] at nodup
    by_cases same : e.1 = k
    · have fresh : (k, v) ∉ es := by
        intro mem
        exact nodup.1 (same ▸ List.mem_map_of_mem (f := Prod.fst) mem)
      simp [same, fresh, Prod.ext_iff, eq_comm]
    · simp [same, ih nodup.2, Prod.ext_iff, Ne.symm same]

theorem get?_set (k i : κ) (v : Option ν) (m : Assoc κ ν) :
    (m.set k v).get? i = if i = k then v else m.get? i := by
  refine Option.ext fun w => ?_
  rw [get?_eq_some_iff]
  by_cases same : i = k
  · simp [set, same]
  · simp [set, same, get?_eq_some_iff, Ne.symm same]

theorem get?_filterMap (f : κ → ν → Option ν) (m : Assoc κ ν) (k : κ) :
    (m.filterMap f).get? k = (m.get? k).bind (f k) := by
  refine Option.ext fun w => ?_
  rw [get?_eq_some_iff, Option.bind_eq_some_iff]
  simp only [filterMap, get?_eq_some_iff, List.mem_filterMap, Option.map_eq_some_iff,
    Prod.mk.injEq]
  constructor
  · rintro ⟨e, mem, v, new, rfl, rfl⟩
    exact ⟨e.2, mem, new⟩
  · rintro ⟨v, mem, new⟩
    exact ⟨(k, v), mem, w, new, rfl, rfl⟩

theorem mem_keys_iff {k : κ} {m : Assoc κ ν} : k ∈ m.keys ↔ m.get? k ≠ none := by
  simp [keys, get?]

end Assoc

/-! ### Counts -/

/-- Things with counts. A thing whose count is zero has no entry. -/
structure Counted (α : Type) [DecidableEq α] where
  counts : Assoc α Nat
  positive : ∀ a, counts.get? a ≠ some 0

namespace Counted

variable {α : Type} [DecidableEq α]

instance : EmptyCollection (Counted α) := ⟨⟨∅, nofun⟩⟩

/-- The things that are counted, each once. -/
def keys (t : Counted α) : List α := t.counts.keys

instance : Membership α (Counted α) := ⟨fun t a => a ∈ t.keys⟩

instance (a : α) (t : Counted α) : Decidable (a ∈ t) :=
  inferInstanceAs (Decidable (a ∈ t.keys))

/-- Nothing is counted. -/
def isEmpty (t : Counted α) : Bool := t.counts.entries.isEmpty

/-- How many things are counted, whatever their counts. -/
def size (t : Counted α) : Nat := t.counts.entries.length

/-- How often a thing is counted. -/
def count (t : Counted α) (a : α) : Nat := (t.counts.get? a).getD 0

/-- Counts a thing once more. -/
def add (a : α) (t : Counted α) : Counted α where
  counts := t.counts.set a (some (t.count a + 1))
  positive b := by
    rw [Assoc.get?_set]
    split
    · simp
    · exact t.positive b

/-- Counts a thing once less; the answer says whether it was counted. -/
def remove (a : α) (t : Counted α) : Bool × Counted α :=
  match t.counts.get? a with
  | none => (false, t)
  | some n =>
    (true,
      { counts := t.counts.set a (if n - 1 = 0 then none else some (n - 1))
        positive := fun b => by
          rw [Assoc.get?_set]
          split
          · split <;> simp [*]
          · exact t.positive b })

/-- Drops the things that do not pass a test. -/
def retain (keeps : α → Bool) (t : Counted α) : Counted α where
  counts := t.counts.filterMap fun a n => if keeps a then some n else none
  positive a := by
    rw [Assoc.get?_filterMap]
    cases found : t.counts.get? a with
    | none => simp
    | some n =>
      cases keeps a with
      | false => simp
      | true => simpa [found] using t.positive a

@[simp] theorem mem_keys_iff {t : Counted α} {a : α} : a ∈ t.keys ↔ a ∈ t := Iff.rfl

theorem mem_iff {t : Counted α} {a : α} : a ∈ t ↔ 0 < t.count a := by
  show a ∈ t.counts.keys ↔ _
  rw [Assoc.mem_keys_iff, count]
  cases found : t.counts.get? a with
  | none => simp
  | some n => simpa [found, Nat.pos_iff_ne_zero] using t.positive a

@[simp] theorem count_empty (a : α) : (∅ : Counted α).count a = 0 := rfl

theorem count_add (t : Counted α) (a b : α) :
    (t.add a).count b = t.count b + if b = a then 1 else 0 := by
  show ((t.counts.set a (some (t.count a + 1))).get? b).getD 0 = _
  rw [Assoc.get?_set]
  split
  · next same =>
    rw [same]
    rfl
  · rfl

theorem remove_fst (t : Counted α) (a : α) : (t.remove a).1 = true ↔ a ∈ t := by
  rw [mem_iff, count, remove]
  cases found : t.counts.get? a with
  | none => simp
  | some n => simpa [found, Nat.pos_iff_ne_zero] using t.positive a

theorem count_remove (t : Counted α) (a b : α) :
    (t.remove a).2.count b = t.count b - if b = a then 1 else 0 := by
  unfold remove
  split
  · next none =>
    split
    · next same => simp [count, same, none]
    · rfl
  · next n some =>
    unfold count
    dsimp only
    rw [Assoc.get?_set]
    split
    · next same =>
      rw [same, some]
      split <;> simp [*]
    · rfl

theorem count_retain (keeps : α → Bool) (t : Counted α) (a : α) :
    (t.retain keeps).count a = if keeps a then t.count a else 0 := by
  unfold count retain
  dsimp only
  rw [Assoc.get?_filterMap]
  cases t.counts.get? a <;> cases keeps a <;> rfl

theorem mem_add {t : Counted α} {a b : α} : b ∈ t.add a ↔ b = a ∨ b ∈ t := by
  rw [mem_iff, mem_iff, count_add]
  split <;> simp [*]

theorem mem_of_mem_remove {t : Counted α} {a b : α} (mem : b ∈ (t.remove a).2) : b ∈ t := by
  rw [mem_iff, count_remove] at mem
  exact mem_iff.mpr (Nat.lt_of_lt_of_le mem (Nat.sub_le _ _))

theorem isEmpty_iff {t : Counted α} : t.isEmpty = true ↔ ∀ a, a ∉ t := by
  show t.counts.entries.isEmpty = true ↔ ∀ a, a ∉ t.counts.entries.map Prod.fst
  rw [List.isEmpty_iff, ← List.eq_nil_iff_forall_not_mem, List.map_eq_nil_iff]

theorem isEmpty_add (t : Counted α) (a : α) : (t.add a).isEmpty = false :=
  Bool.eq_false_iff.mpr fun empty => isEmpty_iff.mp empty a (mem_add.mpr (Or.inl rfl))

/-- The table, unless it is empty. -/
def inhabited? (t : Counted α) : Option (Counted α) := if t.isEmpty then none else some t

theorem isEmpty_of_inhabited? {t t' : Counted α} (found : t.inhabited? = some t') :
    t'.isEmpty = false := by
  unfold inhabited? at found
  split at found
  · cases found
  · next some =>
    cases found
    exact Bool.eq_false_iff.mpr some

/-- The count of a thing in a row that may be missing. -/
def countIn (a : α) (row : Option (Counted α)) : Nat := row.elim 0 fun t => t.count a

theorem countIn_inhabited? (t : Counted α) (a : α) : countIn a t.inhabited? = t.count a := by
  unfold inhabited?
  split
  · next empty =>
    have missing := isEmpty_iff.mp empty a
    rw [mem_iff, Nat.not_lt_eq, Nat.le_zero] at missing
    exact missing.symm
  · rfl

end Counted

/-! ### Edges -/

/-- Edges between nodes with counts: a row for each node that edges leave, with the targets. A node
without edges has no row. -/
structure EdgeTable where
  rows : Assoc Node (Counted Node)
  inhabited : ∀ n row, rows.get? n = some row → row.isEmpty = false

namespace EdgeTable

instance : EmptyCollection EdgeTable := ⟨⟨∅, nofun⟩⟩

/-- The edges, each once. -/
def toList (t : EdgeTable) : List (Node × Node) :=
  t.rows.entries.flatMap fun r => r.2.keys.map (r.1, ·)

instance : Membership (Node × Node) EdgeTable := ⟨fun t e => e ∈ t.toList⟩

instance (e : Node × Node) (t : EdgeTable) : Decidable (e ∈ t) :=
  inferInstanceAs (Decidable (e ∈ t.toList))

/-- The nodes that the edges of a node lead to. -/
def targets (t : EdgeTable) (owner : Node) : List Node :=
  ((t.rows.get? owner).map Counted.keys).getD []

/-- How many edges there are, whatever their counts. -/
def size (t : EdgeTable) : Nat := t.rows.entries.foldr (fun r n => r.2.size + n) 0

/-- How often an edge is counted. -/
def count (t : EdgeTable) (owner target : Node) : Nat :=
  Counted.countIn target (t.rows.get? owner)

/-- Counts an edge once more. -/
def add (owner target : Node) (t : EdgeTable) : EdgeTable where
  rows := t.rows.set owner (some (((t.rows.get? owner).getD ∅).add target))
  inhabited n row found := by
    rw [Assoc.get?_set] at found
    split at found
    · cases found
      exact Counted.isEmpty_add _ _
    · exact t.inhabited n row found

/-- Counts an edge once less; the answer says whether it was counted. -/
def remove (owner target : Node) (t : EdgeTable) : Bool × EdgeTable :=
  match t.rows.get? owner with
  | none => (false, t)
  | some row =>
    ((row.remove target).1,
      { rows := t.rows.set owner (row.remove target).2.inhabited?
        inhabited := fun n row found => by
          rw [Assoc.get?_set] at found
          split at found
          · exact Counted.isEmpty_of_inhabited? found
          · exact t.inhabited n row found })

/-- Drops the edges with an end that does not pass a test. -/
def retain (keeps : Node → Bool) (t : EdgeTable) : EdgeTable where
  rows := t.rows.filterMap fun owner row =>
    if keeps owner then (row.retain keeps).inhabited? else none
  inhabited n row found := by
    rw [Assoc.get?_filterMap, Option.bind_eq_some_iff] at found
    obtain ⟨old, -, found⟩ := found
    split at found
    · exact Counted.isEmpty_of_inhabited? found
    · cases found

@[simp] theorem count_empty (a b : Node) : (∅ : EdgeTable).count a b = 0 := rfl

@[simp] theorem mem_toList_iff {t : EdgeTable} {e : Node × Node} : e ∈ t.toList ↔ e ∈ t :=
  Iff.rfl

theorem length_toList (t : EdgeTable) : t.toList.length = t.size := by
  unfold toList size
  induction t.rows.entries with
  | nil => rfl
  | cons r rows ih =>
    rw [List.flatMap_cons, List.length_append, ih, List.length_map, List.foldr_cons]
    congr 1
    exact List.length_map _

/-- An edge is listed in the row of its owner only, and there once. -/
theorem nodup_toList (t : EdgeTable) : t.toList.Nodup := by
  refine List.pairwise_flatMap.mpr ⟨fun r _ => ?_, ?_⟩
  · refine List.pairwise_map.mpr (r.2.counts.nodup.imp fun other same => ?_)
    exact other (Prod.mk.inj same).2
  · refine (List.pairwise_map.mp t.rows.nodup).imp fun other => ?_
    rintro e mem e' mem' rfl
    obtain ⟨_, -, rfl⟩ := List.mem_map.mp mem
    obtain ⟨_, -, same⟩ := List.mem_map.mp mem'
    exact other (Prod.mk.inj same).1.symm

theorem mem_iff_of_get? {t : EdgeTable} {a b : Node} :
    (a, b) ∈ t ↔ ∃ row, t.rows.get? a = some row ∧ b ∈ row := by
  show (a, b) ∈ t.toList ↔ _
  simp only [toList, List.mem_flatMap, List.mem_map, Prod.mk.injEq]
  constructor
  · rintro ⟨r, mem, target, found, rfl, rfl⟩
    exact ⟨r.2, Assoc.get?_eq_some_iff.mpr mem, found⟩
  · rintro ⟨row, mem, found⟩
    exact ⟨(a, row), Assoc.get?_eq_some_iff.mp mem, b, found, rfl, rfl⟩

theorem mem_targets_iff {t : EdgeTable} {a b : Node} : b ∈ t.targets a ↔ (a, b) ∈ t := by
  rw [mem_iff_of_get?, targets]
  cases t.rows.get? a <;> simp

theorem mem_iff {t : EdgeTable} {e : Node × Node} : e ∈ t ↔ 0 < t.count e.1 e.2 := by
  rw [mem_iff_of_get?, count]
  cases t.rows.get? e.1 with
  | none => simp [Counted.countIn]
  | some row => simp [Counted.countIn, Counted.mem_iff]

theorem count_add (t : EdgeTable) (owner target a b : Node) :
    (t.add owner target).count a b =
      t.count a b + if (a, b) = (owner, target) then 1 else 0 := by
  unfold count add
  dsimp only
  rw [Assoc.get?_set]
  by_cases same : a = owner
  · subst same
    cases t.rows.get? a <;> simp [Counted.countIn, Counted.count_add]
  · simp [same]

theorem remove_fst (t : EdgeTable) (owner target : Node) :
    (t.remove owner target).1 = true ↔ (owner, target) ∈ t := by
  rw [mem_iff_of_get?, remove]
  cases found : t.rows.get? owner with
  | none => simp
  | some row => simp [Counted.remove_fst]

theorem count_remove (t : EdgeTable) (owner target a b : Node) :
    (t.remove owner target).2.count a b =
      t.count a b - if (a, b) = (owner, target) then 1 else 0 := by
  unfold remove
  split
  · next none =>
    split
    · next same =>
      cases same
      rw [count, none]
      rfl
    · rfl
  · next row found =>
    unfold count
    dsimp only
    rw [Assoc.get?_set]
    by_cases same : a = owner
    · rw [if_pos same, Counted.countIn_inhabited?, Counted.count_remove, same, found]
      simp [Counted.countIn]
    · simp [same]

theorem count_retain (keeps : Node → Bool) (t : EdgeTable) (a b : Node) :
    (t.retain keeps).count a b = if keeps a && keeps b then t.count a b else 0 := by
  unfold count retain
  dsimp only
  rw [Assoc.get?_filterMap]
  cases t.rows.get? a with
  | none => simp [Counted.countIn]
  | some row =>
    rw [Option.bind_some]
    cases keeps a with
    | false => rfl
    | true =>
      rw [if_pos rfl, Counted.countIn_inhabited?, Counted.count_retain]
      rfl

theorem mem_add {t : EdgeTable} {owner target : Node} {e : Node × Node} :
    e ∈ t.add owner target ↔ e = (owner, target) ∨ e ∈ t := by
  obtain ⟨a, b⟩ := e
  rw [mem_iff, mem_iff, count_add]
  split <;> simp [*]

theorem mem_of_mem_remove {t : EdgeTable} {owner target : Node} {e : Node × Node}
    (mem : e ∈ (t.remove owner target).2) : e ∈ t := by
  rw [mem_iff, count_remove] at mem
  exact mem_iff.mpr (Nat.lt_of_lt_of_le mem (Nat.sub_le _ _))

end EdgeTable

end HostObjects
