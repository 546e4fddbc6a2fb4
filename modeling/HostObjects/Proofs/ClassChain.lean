import HostObjects.Class
import Mathlib.Data.List.TakeWhile
import Mathlib.Tactic.Common

/-!
# Class chains

The classes of a chain fall in two parts.  Up to the first class without an automatic
prototype, each has a shared prototype that holds its static functions
(`Class.automaticPrefix`); the functions of all others are found on the instance
(`Class.onInstance`), also of those that do have a shared prototype for instances of their
own.

A `Registry` is what there can be of classes at one time: each was made with a parent that
was there before it and got an identity of its own.  So a class is known by its identity,
and what is above it is in the registry as well.
-/

namespace HostObjects

namespace Class

variable {c : Class} {d : Descriptor}

/-- The classes of the chain whose static functions are on shared prototypes of an instance:
all before the first one without an automatic prototype. -/
def automaticPrefix (c : Class) : List Descriptor := c.chain.takeWhile Descriptor.automatic

theorem chain_eq_append (c : Class) : c.chain = c.automaticPrefix ++ c.onInstance :=
  List.takeWhile_append_dropWhile.symm

theorem length_automaticPrefix_le (c : Class) : c.automaticPrefix.length ≤ c.chain.length :=
  (List.takeWhile_sublist _).length_le

theorem inheritsFrom_iff {id : ClassId} :
    c.inheritsFrom id = true ↔ ∃ d ∈ c.chain, d.id = id := by
  simp [inheritsFrom]

/-- What a class is made from. -/
theorem of_define {parent : Option Class} (made : define d parent = .ok c) :
    c = ⟨d, (parent.map chain).getD []⟩ ∧ c.chain.length ≤ maxChain := by
  unfold define at made
  dsimp only at made
  split at made
  · cases made
  split at made
  · cases made
  · next short =>
      split at made
      · cases made
      · cases made
        exact ⟨rfl, Nat.le_of_not_lt short⟩

end Class

/-! ### The classes there are -/

/-- Classes that were made one after the other, the last one first. -/
inductive Registry : List Class → Prop
  | nil : Registry []
  /-- A class is made with a parent that is there, if it has one, and a new identity. -/
  | cons {cs : List Class} {d : Descriptor} {parent : Option Class} {c : Class}
      (rest : Registry cs) (above : ∀ p, parent = some p → p ∈ cs)
      (new : ∀ c' ∈ cs, c'.id ≠ d.id) (made : Class.define d parent = .ok c) :
      Registry (c :: cs)

namespace Registry

variable {cs : List Class} {c c' : Class} {d : Descriptor} {ds : List Descriptor}

theorem length_chain_le (registry : Registry cs) (mem : c ∈ cs) :
    c.chain.length ≤ Class.maxChain := by
  induction registry with
  | nil => cases mem
  | cons _ _ _ made ih =>
      rcases List.mem_cons.mp mem with rfl | mem
      · exact (Class.of_define made).2
      · exact ih mem

/-- **A class is known by its identity.** -/
theorem eq_of_id (registry : Registry cs) (mem : c ∈ cs) (mem' : c' ∈ cs)
    (same : c.id = c'.id) : c = c' := by
  induction registry with
  | nil => cases mem
  | cons _ _ new made ih =>
      have id_made := congrArg Class.id (Class.of_define made).1
      rcases List.mem_cons.mp mem with rfl | old <;> rcases List.mem_cons.mp mem' with rfl | old'
      · rfl
      · exact absurd (same.symm.trans id_made) (new _ old')
      · exact absurd (same.trans id_made) (new _ old)
      · exact ih old old'

/-- **What is above a class is there as well.** -/
theorem mem_of_suffix (registry : Registry cs) (mem : c ∈ cs) (above : d :: ds <:+ c.chain) :
    (⟨d, ds⟩ : Class) ∈ cs := by
  induction registry generalizing c with
  | nil => cases mem
  | @cons _ _ parent _ _ parent_mem _ made ih =>
      rcases List.mem_cons.mp mem with rfl | mem
      · obtain ⟨rfl, -⟩ := Class.of_define made
        rcases List.suffix_cons_iff.mp above with same | above
        · cases same
          exact List.mem_cons_self
        · cases parent with
          | none => cases List.eq_nil_of_suffix_nil above
          | some p => exact List.mem_cons_of_mem _ (ih (parent_mem p rfl) above)
      · exact List.mem_cons_of_mem _ (ih mem above)

/-- The chain of a class ends in the chains of those that it inherits from. -/
theorem suffix_of_inheritsFrom (registry : Registry cs) (mem : c ∈ cs) (mem' : c' ∈ cs)
    (inherits : c.inheritsFrom c'.id = true) : c'.chain <:+ c.chain := by
  obtain ⟨d, there, same⟩ := Class.inheritsFrom_iff.mp inherits
  obtain ⟨before, ds, split⟩ := List.append_of_mem there
  have suffix : d :: ds <:+ c.chain := ⟨before, split.symm⟩
  have eq : (⟨d, ds⟩ : Class) = c' :=
    registry.eq_of_id (registry.mem_of_suffix mem suffix) mem' same
  exact eq ▸ suffix

/-- No class inherits from itself. -/
theorem ancestors_id_ne (registry : Registry cs) (mem : c ∈ cs) :
    ∀ d ∈ c.ancestors, d.id ≠ c.id := by
  intro d there same
  obtain ⟨before, ds, split⟩ := List.append_of_mem there
  have suffix : d :: ds <:+ c.ancestors := ⟨before, split.symm⟩
  have eq : (⟨d, ds⟩ : Class) = c :=
    registry.eq_of_id (registry.mem_of_suffix mem (suffix.trans (List.suffix_cons _ _))) mem same
  -- The chain would be longer than itself.
  have le := suffix.length_le
  rw [← eq] at le
  exact Nat.not_succ_le_self _ le

/-- The classes of a chain have different identities. -/
theorem nodup_ids (registry : Registry cs) (mem : c ∈ cs) :
    (c.chain.map Descriptor.id).Nodup := by
  have each : ∀ ds, ds <:+ c.chain → (ds.map Descriptor.id).Nodup := by
    intro ds
    induction ds with
    | nil => exact fun _ => List.nodup_nil
    | cons d ds ih =>
        intro suffix
        refine List.nodup_cons.mpr ⟨fun again => ?_, ih ((List.suffix_cons d ds).trans suffix)⟩
        obtain ⟨d', there, same⟩ := List.mem_map.mp again
        exact registry.ancestors_id_ne (registry.mem_of_suffix mem suffix) d' there same
  exact each _ (List.suffix_refl _)

end Registry

end HostObjects
