import HostObjects.Proofs.Script.Books

/-!
# What is watched while a script runs

A script works on many heaps.  Each is at hand for a block under way, or in its group,
or in a register.  A `Watch` says what is expected of those at hand and of those in
their groups, and it may follow the run loops of the groups; `Watch.Holds` says that a
world is so.

This module is about everything a script does to its world apart from the heaps at
hand: dropping private data and owned roots, deferring tasks, running finalizers,
dropping groups and contexts.  None of it touches a heap at hand, and of a heap in its
group it touches roots and edges only, never the stack.
-/

namespace HostObjects.Script

open Heap

/-- What is expected of the heaps of a world. -/
structure Watch where
  /-- Of the heaps at hand, innermost first. -/
  lent : List Lent → Prop
  /-- Of every heap in its group. -/
  kept : Heap → Prop
  /-- Of the stack of every heap in its group. -/
  rest : Array Value → Prop
  /-- The groups whose heap may be away. -/
  away : HeapId → Prop
  unbroken : Unbroken kept
  kept_new : ∀ t limits mode, kept (Heap.new t limits mode)
  rest_empty : rest #[]
  /-- The books of the run loops, if these are followed. -/
  books : Option Books := none

/-- What is expected of a group. -/
structure Watch.Home (K : Watch) (t : HeapId) (g : Group Task) : Prop where
  heap : ∀ h, g.heap = some h → K.kept h ∧ K.rest h.stack
  away : g.heap = none → K.away t

/-- The world is as expected. -/
structure Watch.Holds (K : Watch) (w : World) : Prop where
  lent : K.lent w.lent
  groups : ∀ (t : HeapId) (g : Group Task), w.groups[t]? = some g → K.Home t g
  books : ∀ b ∈ K.books, b.Kept w

variable {K : Watch} {w w' : World} {t : HeapId} {g g' : Group Task}

/-! ### Groups -/

theorem Watch.Home.congr (home : K.Home t g) (same : g'.heap = g.heap) : K.Home t g' where
  heap h found := home.heap h (same ▸ found)
  away missing := home.away (same ▸ missing)

/-- Undoing what was owned leaves the stack as it is. -/
theorem Release.stack_apply (h : Heap) (r : Release) : (r.apply h).stack = h.stack := by
  cases r with
  | root r =>
      exact (Command.removeRoot r).run_stack_of_isBeside (fun _ => false) h rfl rfl
  | edge owner target => rfl

theorem Release.stack_applyAll (h : Heap) (rs : List Release) :
    (Release.applyAll h rs).stack = h.stack := by
  induction rs generalizing h with
  | nil => rfl
  | cons r rs ih => exact (ih (r.apply h)).trans (Release.stack_apply h r)

theorem Watch.kept_applyAll (K : Watch) (rs : List Release) {h : Heap} (kept : K.kept h) :
    K.kept (Release.applyAll h rs) :=
  K.unbroken.above.applyAll rs kept

theorem Watch.Home.release (home : K.Home t g) (r : Release) : K.Home t (g.release r) := by
  unfold Group.release
  cases found : g.heap with
  | none => exact home.congr found.symm
  | some h =>
      obtain ⟨kept, rest⟩ := home.heap h found
      refine ⟨fun h' eq => ?_, fun missing => by cases missing⟩
      cases eq
      refine ⟨K.kept_applyAll [r] kept, ?_⟩
      rwa [Release.stack_apply]

theorem tasks_release (g : Group Task) (r : Release) : (g.release r).tasks = g.tasks := by
  unfold Group.release
  cases g.heap <;> rfl

/-! ### The world around the heaps at hand -/

namespace Watch.Holds

variable (hw : K.Holds w)
include hw

/-- A change of the books, and of nothing that is expected of heaps. -/
theorem rebook {B : Option Books} (lent : w'.lent = w.lent) (groups : w'.groups = w.groups)
    (books : ∀ b ∈ B, b.Kept w') : ({ K with books := B } : Watch).Holds w' where
  lent := lent ▸ hw.lent
  groups t g found :=
    ⟨(hw.groups t g (groups ▸ found)).heap, (hw.groups t g (groups ▸ found)).away⟩
  books := books

/-- The books do not speak of what is at hand. -/
theorem books_congr (groups : w'.groups = w.groups) (past : w'.past = w.past := by rfl)
    (held : w'.heldGroups = w.heldGroups := by rfl)
    (issued : w.issued ≤ w'.issued := by exact Nat.le_refl _) : ∀ b ∈ K.books, b.Kept w' :=
  fun b there => (hw.books b there).congr groups past held issued

theorem congr (lent : w'.lent = w.lent) (groups : w'.groups = w.groups)
    (past : w'.past = w.past := by rfl) (held : w'.heldGroups = w.heldGroups := by rfl)
    (issued : w.issued ≤ w'.issued := by exact Nat.le_refl _) : K.Holds w' :=
  hw.rebook lent groups (hw.books_congr groups past held issued)

/-- A group is put in its place. -/
theorem put {B : Option Books} (home : K.Home t g) (lent : w'.lent = w.lent)
    (groups : w'.groups = w.groups.insert t g) (books : ∀ b ∈ B, b.Kept w') :
    ({ K with books := B } : Watch).Holds w' where
  lent := lent ▸ hw.lent
  groups u g' found := by
    rw [groups, Std.HashMap.getElem?_insert] at found
    split at found
    · next same =>
        cases found
        cases eq_of_beq same
        exact ⟨home.heap, home.away⟩
    · exact ⟨(hw.groups u g' found).heap, (hw.groups u g' found).away⟩
  books := books

/-- A group is put in its place with the queue that it had. -/
theorem insert (home : K.Home t g) (same : w.queue? t = some g.tasks) :
    K.Holds { w with groups := w.groups.insert t g } :=
  hw.put home rfl rfl fun b there =>
    (hw.books b there).of_queues rfl (queue?_put_same rfl same) rfl (Nat.le_refl _)

theorem erase (free : t ∉ w.heldGroups) : K.Holds { w with groups := w.groups.erase t } where
  lent := hw.lent
  groups u g found := by
    rw [Std.HashMap.getElem?_erase] at found
    split at found
    · cases found
    · exact hw.groups u g found
  books b there := (hw.books b there).erase free

theorem changeGroup {f : Group Task → Group Task} (keep : ∀ g, K.Home t g → K.Home t (f g))
    (tasks : ∀ g, (f g).tasks = g.tasks) : K.Holds (w.changeGroup t f) := by
  unfold World.changeGroup
  cases found : w.groups[t]? with
  | none => exact hw
  | some g =>
      have same : w.queue? t = some (f g).tasks := by rw [World.queue?, found, tasks]; rfl
      exact hw.insert (keep g (hw.groups t g found)) same

theorem release (t : HeapId) (r : Release) : K.Holds (w.release t r) :=
  hw.changeGroup (fun _ home => home.release r) fun g => tasks_release g r

theorem defer (t : HeapId) (task : Task) : K.Holds (w.defer t task) := by
  unfold World.defer
  cases found : w.groups[t]? with
  | none => exact hw
  | some g =>
      have home : K.Home t (g.defer task) := (hw.groups t g found).congr rfl
      refine hw.put home rfl rfl fun b there => ?_
      have kept := hw.books b there
      exact kept.put (kept.booked.defer found rfl rfl rfl) rfl rfl rfl rfl

end Watch.Holds

/-! ### Parting with data and objects -/

/-- Letting objects go keeps what finalizers and dropping private data keep. -/
theorem keeps_letAllGo {σ : Type} {host : Reclaimer σ} {M : σ → Prop}
    (finalize : ∀ f o d data s, M s → M (host.finalize f o d data s).2)
    (discard : ∀ data s, M s → M (host.discard data s)) (rs : List Reaped) {s : σ}
    (hs : M s) : M (letAllGo host rs s) := by
  have along : ∀ o ds data s, M s → M (finalizeAlong host o ds data s).2 := by
    intro o ds
    induction ds with
    | nil => exact fun _ _ hs => hs
    | cons d ds ih =>
        intro data s hs
        unfold finalizeAlong
        split
        · next f _ => exact ih _ _ (finalize f o d data s hs)
        · exact ih _ _ hs
  have dropped : ∀ p : Option PrivateData × σ, M p.2 → M (discardAll host p.1 p.2) := by
    rintro ⟨_ | data, s'⟩ hs
    · exact hs
    · exact discard data s' hs
  induction rs generalizing s with
  | nil => exact hs
  | cons r rs ih => exact ih (dropped _ (along r.handle _ r.object.privateData s hs))

/-- A finalizer of the world defers the task when it runs. -/
def World.FinalizerDefers (w : World) (task : Task) : Prop :=
  ∃ (f : HostFunction) (fn : ScriptedFunction), w.functions[f]? = some fn ∧
    ∃ act ∈ fn.acts, act.task? = some task

section Parting

variable {M : World → Prop} (release : ∀ w t r, M w → M (w.release t r))
include release

/-- Dropping data leaves releases to groups and does nothing else. -/
theorem released_dropManaged (m : ManagedValue) (hw : M w) : M (w.dropManaged m) := by
  unfold World.dropManaged
  split
  · exact release _ _ _ hw
  · exact hw

theorem released_discard (data : PrivateData) (hw : M w) : M (w.discard data) := by
  cases data with
  | managed m => exact released_dropManaged release m hw
  | root r => exact release _ _ _ hw
  | word | string => exact hw

theorem released_runActs (acts : List FinalizerAct) (data : Option PrivateData)
    (defer : ∀ act ∈ acts, ∀ task, act.task? = some task → ∀ w t, M w → M (w.defer t task))
    (hw : M w) : M (runActs acts data w).2.2 := by
  induction acts generalizing data w with
  | nil => exact hw
  | cons act acts ih =>
      have rest := fun data w => ih data (w := w) fun act mem =>
        defer act (List.mem_cons_of_mem _ mem)
      cases act with
      | peek => exact rest data _ hw
      | add n =>
          cases data with
          | none => exact rest none _ hw
          | some data => cases data <;> exact rest _ _ hw
      | take =>
          cases data with
          | none => exact rest none _ hw
          | some data => exact rest none _ (released_discard release data hw)
      | defer group label body =>
          refine rest data _ ?_
          unfold World.deferAt
          split
          · exact defer _ List.mem_cons_self _ rfl _ _ hw
          · exact hw

/-- **What releases, events and the tasks of finalizers keep lasts while scripted hosts let
objects go.** -/
theorem released_letAllGo
    (defer : ∀ w task, M w → w.FinalizerDefers task → ∀ w' t, M w' → M (w'.defer t task))
    (note : ∀ w e, M w → M (w.note e)) (rs : List Reaped) (hw : M w) :
    M (letAllGo reclaimer rs w) := by
  refine keeps_letAllGo (M := M) (fun f o d data w hw => ?_)
    (fun data _ hw => released_discard release data hw) rs hw
  show M (runFinalizer f o d data w).2
  unfold Script.runFinalizer
  split
  · next fn found =>
      refine note _ _ (released_runActs release fn.acts data (fun act mem task of => ?_) hw)
      exact defer w task hw ⟨f, fn, found, act, mem, of⟩
  · exact hw

end Parting

namespace Watch.Holds

variable (hw : K.Holds w)
include hw

theorem dropManaged (m : ManagedValue) : K.Holds (w.dropManaged m) :=
  released_dropManaged (fun _ t r hw => hw.release t r) m hw

theorem dropOwned (r : OwnedRoot) : K.Holds (w.dropOwned r) := hw.release _ _

theorem discard (data : PrivateData) : K.Holds (w.discard data) :=
  released_discard (fun _ t r hw => hw.release t r) data hw

theorem letAllGo (rs : List Reaped) : K.Holds (letAllGo reclaimer rs w) :=
  released_letAllGo (fun _ t r hw => hw.release t r) (fun _ task _ _ _ t hw => hw.defer t task)
    (fun _ _ hw => hw.congr rfl rfl) rs hw

end Watch.Holds

/-! ### Dropping groups and contexts -/

/-- A group without holders is not held by a block. -/
theorem not_mem_heldGroups (free : w.groupRefs t = 0) : t ∉ w.heldGroups := by
  unfold World.groupRefs at free
  exact List.count_eq_zero.mp (Nat.eq_zero_of_add_eq_zero_left free)

theorem Watch.Holds.settleGroup (t : HeapId) (hw : K.Holds w) :
    K.Holds (w.settleGroup t) := by
  unfold World.settleGroup
  split
  · next free =>
      have gone := hw.erase (not_mem_heldGroups free)
      split
      · dsimp only
        split
        · exact gone.letAllGo _
        · exact gone
      · exact hw
  · exact hw

theorem Watch.Holds.settleContext (id : ContextId) (hw : K.Holds w) :
    K.Holds (w.settleContext id) := by
  unfold World.settleContext
  split
  · split
    · next c _ =>
        have released := hw.release c.group (.root c.root)
        exact Watch.Holds.settleGroup _ (released.congr rfl rfl)
    · exact hw
  · exact hw

end HostObjects.Script
