import HostObjects.Proofs.Group.Owner
import HostObjects.Proofs.Script.AtHand
import HostObjects.Proofs.View.Lifecycle

/-!
# Owners in scripts

Scripts make contexts, owned roots and managed values, and drop them.  What they do then
is what owners do: a context is made as by `Owner.makeContext`, after whatever commands
build the prototype of its class (`makeGlobal_makes`), and a drop leaves the release of
the owner to the group (`World.dropOwner`).
-/

namespace HostObjects.Script

open Heap Play

variable {host : Host World}

/-! ### Drops -/

/-- Leaves to a group what the drop of an owner leaves to be undone. -/
def World.dropOwner (t : HeapId) (o : Owner) (w : World) : World :=
  o.release?.elim w fun r => w.release t r

theorem dropOwned_eq_dropOwner (r : OwnedRoot) (w : World) :
    w.dropOwned r = w.dropOwner r.heap (.root r) := rfl

theorem dropManaged_eq_dropOwner (m : ManagedValue) (w : World) :
    w.dropManaged m = w.dropOwner m.heap (.managed m) := by
  obtain ⟨v, owner, id⟩ := m
  cases owner <;> cases v <;> rfl

/-- A context that nobody holds any more is dropped, and then perhaps its group. -/
theorem settleContext_eq_dropOwner {id : ContextId} {c : Context} {w : World}
    (unheld : w.contextRefs id = 0) (found : w.contexts[id]? = some c) :
    w.settleContext id =
      World.settleGroup c.group
        { w.dropOwner c.group (.context c.global c.root) with
          contexts := (w.dropOwner c.group (.context c.global c.root)).contexts.erase id } := by
  unfold World.settleContext
  rw [if_pos unheld, found]
  rfl

/-- In the group the release is undone at once, or waits. -/
theorem groups_dropOwner (t : HeapId) (o : Owner) (w : World) :
    (w.dropOwner t o).groups[t]? =
      w.groups[t]?.map fun g => o.release?.elim g fun r => g.release r := by
  unfold World.dropOwner
  cases o.release? with
  | none => simp
  | some r =>
      simp only [Option.elim_some, World.release, World.changeGroup]
      cases found : w.groups[t]? with
      | none => simp [found]
      | some g => simp

/-- No other group is told. -/
theorem groups_dropOwner_of_ne {t u : HeapId} (other : t ≠ u) (o : Owner) (w : World) :
    (w.dropOwner t o).groups[u]? = w.groups[u]? := by
  unfold World.dropOwner
  cases o.release? with
  | none => rfl
  | some r =>
      simp only [Option.elim_some, World.release, World.changeGroup]
      cases w.groups[t]? with
      | none => rfl
      | some g => simp [Std.HashMap.getElem?_insert, other]

/-! ### Contexts -/

/-- The objects that died are let go before the root is added or after. -/
theorem addRoot_letGo (h : Heap) (v : Value) :
    Heap.addRoot v { h with reaped := [] } =
      ((h.addRoot v).1, { (h.addRoot v).2 with reaped := [] }) := by
  unfold Heap.addRoot
  dsimp only
  split <;> rfl

theorem editing_cons {α : Type} (f : Heap → α × Heap) {w : World} {l : Lent}
    {rest : List Lent} (atHand : w.lent = l :: rest) :
    Play.editing f w =
      (.ok (f l.heap).1, { w with lent := ⟨(f l.heap).2, l.holding⟩ :: rest }) := by
  unfold Play.editing
  rw [acting_cons _ atHand]
  rfl

/-- The action allocates a global object, after some commands, and lets go of what died. -/
def AllocatesGlobal (act : Action World Handle) : Prop :=
  ∀ {s s' o}, act s = (.ok o, s') →
    ∃ turns held made, ∃ h, Owner.newGlobal held made (s.heap.after turns) = (.ok o, h) ∧
      s'.heap = { h with reaped := [] }

theorem allocatesGlobal_allocPlain :
    AllocatesGlobal (Action.allocating host Heap.allocPlain) := by
  intro s s' o run
  rw [allocating_apply, settle_eq] at run
  refine ⟨[], Action.heldOutside host s, none, ?_⟩
  change ∃ h, Heap.allocPlain _ s.heap = (.ok o, h) ∧ _
  generalize Heap.allocPlain _ s.heap = out at run ⊢
  rcases out with ⟨e | p, h⟩
  · cases run
  · cases run
    exact ⟨h, rfl, rfl⟩

/-- The commands build the prototype of the class. -/
theorem allocatesGlobal_makeInstance (c : Class) :
    AllocatesGlobal (View.makeInstance host c none) := by
  intro s s' o run
  refine ⟨[⟨Action.heldOutside host s, .prototypeOf c⟩, ⟨fun _ => false, .settle⟩], ?_⟩
  unfold View.makeInstance View.orDiscard at run
  rw [tryCatch_apply, bind_apply, allocating_apply, settle_eq] at run
  change ∃ held made h, Owner.newGlobal held made
    { (prototypeOf (Action.heldOutside host s) c.chain s.heap).2 with reaped := [] } = _ ∧ _
  generalize prototypeOf (Action.heldOutside host s) c.chain s.heap = out at run ⊢
  rcases out with ⟨e | proto, h⟩
  · cases run
  · dsimp only at run
    generalize between : (⟨{ h with reaped := [] }, s.holding, _⟩ : Session World) = s₁ at run
    have heap : s₁.heap = { h with reaped := [] } := between ▸ rfl
    have act : Action.allocating host (fun held => Heap.allocInstance held c none proto) s₁ = _ :=
      allocating_apply _ s₁
    rw [settle_eq, heap] at act
    generalize made : Heap.allocInstance _ c none proto _ = out at act
    generalize Action.allocating host (fun held => Heap.allocInstance held c none proto) s₁ =
      answer at run act
    subst act
    rcases out with ⟨e | p, h'⟩
    · cases run
    · cases run
      exact ⟨_, some (c, proto), h', made, rfl⟩

/-- **A script makes a context as owners are made.** -/
theorem makeGlobal_makes {c : Option Class} {w w' : World} {l : Lent} {rest : List Lent}
    {o : Handle} {r : RootPlace} (atHand : w.lent = l :: rest)
    (run : makeGlobal host c w = (.ok (o, r), w')) :
    ∃ turns held made h, ∃ l' rest',
      Owner.makeContext held made (l.heap.after turns) = (.ok (.context o r), h) ∧
        w'.lent = l' :: rest' ∧ l'.heap = { h with reaped := [] } := by
  obtain ⟨act, allocates, run⟩ : ∃ act, AllocatesGlobal act ∧
      (acting act >>= fun o => editing (Heap.addRoot (.object o)) >>= fun r => pure (o, r)) w =
        (.ok (o, r), w') := by
    cases c with
    | none => exact ⟨_, allocatesGlobal_allocPlain, run⟩
    | some c => exact ⟨_, allocatesGlobal_makeInstance c, run⟩
  rw [bind_apply, acting_cons _ atHand] at run
  generalize allocation : act _ = out at run
  rcases out with ⟨e | p, s⟩
  · cases run
  · obtain ⟨turns, held, made, h, allocated, left⟩ := allocates allocation
    dsimp only [Except.mapError] at run
    have lent : (worldOf s).lent = ⟨s.heap, s.holding⟩ :: s.host.lent := rfl
    rw [bind_apply, editing_cons _ lent, left, addRoot_letGo] at run
    cases run
    refine ⟨turns, held, made, (h.addRoot (.object o)).2, _, _, ?_, rfl, rfl⟩
    unfold Owner.makeContext
    rw [bind_apply, allocated]
    rfl

end HostObjects.Script
