import HostObjects.Proofs.Heap.Command

/-!
# The frame of a view

A view, a rooting scope or a callback has the stack of roots from some height on to
itself: it may push and cut as it likes, but not below the height at which it
started.  `Within start` are the heaps that commands of that kind lead to from a
heap, and `UnbrokenAbove` are the properties that they keep.

Two things follow for whoever handed the heap over.  The stack it left is still
there, with more on top (`Within.stack`), and every object that was rooted in it and
valid is valid still (`Within.isValid`), whatever collections ran in between.
-/

namespace HostObjects.Heap

variable {start h : Heap} {base : Nat} {I : Heap → Prop}

/-! ### Commands above a height -/

/-- The command does not cut the stack below a height. -/
def Command.StaysAbove (base : Nat) : Command → Prop
  | cutStack height => base ≤ height
  | _ => True

theorem Command.StaysAbove.mono {base' : Nat} (le : base' ≤ base) {c : Command}
    (stays : c.StaysAbove base) : c.StaysAbove base' := by
  cases c with
  | cutStack height => exact Nat.le_trans le stays
  | _ => trivial

theorem Command.staysAbove_of_still {c : Command} (still : c.movesStack = false)
    (base : Nat) : c.StaysAbove base := by
  cases c with
  | cutStack => cases still
  | _ => trivial

/-- A property of heaps that the commands above a height keep; the stack has the
height where it holds. -/
structure UnbrokenAbove (base : Nat) (I : Heap → Prop) : Prop where
  run : ∀ held h (c : Command), c.StaysAbove base → I h → I (c.run held h)
  high : ∀ h, I h → base ≤ h.stack.size

theorem Unbroken.above (unbroken : Unbroken I) : UnbrokenAbove 0 I where
  run held h c _ hs := unbroken held h c hs
  high _ _ := Nat.zero_le _

/-- The heaps that commands lead to which leave alone what is on the stack at the
start. -/
inductive Within (start : Heap) : Heap → Prop
  | refl : Within start start
  | step {h : Heap} (within : Within start h) (held : ClassId → Bool) {c : Command}
      (stays : c.StaysAbove start.stack.size) : Within start (c.run held h)

theorem Reachable.within (reachable : Reachable start) (within : Within start h) :
    Reachable h := by
  induction within with
  | refl => exact reachable
  | step _ held _ ih => exact ih.step held _

/-- What holds at the start and is kept above some height holds within. -/
theorem UnbrokenAbove.within (unbroken : UnbrokenAbove base I) (hs : I start)
    (within : Within start h) : I h := by
  induction within with
  | refl => exact hs
  | step _ held stays ih =>
      exact unbroken.run held _ _ (stays.mono (unbroken.high start hs)) ih

/-! ### Families over the stack -/

/-- A steady family is kept above the part of the stack that all its members share,
if cutting the stack above that part leads from one member to another. -/
theorem Steady.unbrokenAbove {I : Array Value → Heap → Prop} (steady : Steady I)
    (settled : ∀ S h, I S h → I S { h with reaped := [] })
    (cut : ∀ S n h, I S h → base ≤ n → ∃ S', I S' (h.cutStack n))
    (high : ∀ S h, I S h → base ≤ h.stack.size) :
    UnbrokenAbove base fun h => ∃ S, I S h where
  run held h c stays := by
    rintro ⟨S, hs⟩
    by_cases isSettle : c = .settle
    · subst isSettle
      exact ⟨S, settled S h hs⟩
    · cases moves : c.movesStack with
      | false => exact ⟨S, steady.run held isSettle moves hs⟩
      | true =>
          cases c with
          | pushRoot v => exact ⟨S.push v, steady.push S v h hs⟩
          | cutStack n => exact cut S n h hs stays
          | _ => cases moves
  high h := fun ⟨S, hs⟩ => high S h hs

/-- The stack is the one of the start with more on top. -/
def Extends (start : Heap) (top : Array Value) (h : Heap) : Prop :=
  h.stack = start.stack ++ top

theorem Extends.push {top : Array Value} (extended : start.Extends top h) (v : Value) :
    start.Extends (top.push v) (h.pushRoot v) := by
  show h.stack.push v = start.stack ++ top.push v
  rw [extended, Array.append_push]

theorem Extends.pop {top : Array Value} {v : Value}
    (extended : start.Extends (top.push v) h) : start.Extends top h.popRoot := by
  show h.stack.pop = start.stack ++ top
  rw [extended, Array.append_push, Array.pop_push]

theorem Extends.cut {top : Array Value} (extended : start.Extends top h) {n : Nat}
    (le : start.stack.size ≤ n) :
    start.Extends (top.shrink (n - start.stack.size)) (h.cutStack n) := by
  show h.stack.shrink n = start.stack ++ top.shrink (n - start.stack.size)
  rw [extended]
  apply Array.ext'
  simp [List.take_of_length_le le]

/-- Cutting the stack back to the height of the start restores it. -/
theorem Extends.restore {top : Array Value} (extended : start.Extends top h) :
    start.Extends #[] (h.cutStack start.stack.size) := by
  have cut := extended.cut (Nat.le_refl start.stack.size)
  have none : top.shrink (start.stack.size - start.stack.size) = #[] := by
    apply Array.ext'
    simp
  rwa [none] at cut

theorem Extends.le_size {top : Array Value} (extended : start.Extends top h) :
    start.stack.size ≤ h.stack.size := by
  rw [extended, Array.size_append]
  exact Nat.le_add_right _ _

/-- Steps leave the stack as it is. -/
theorem steady_extends (start : Heap) : Steady start.Extends where
  collect _ _ _ extended := extended
  place _ obj h extended := by
    unfold Extends
    rwa [place_stack]
  store _ _ _ _ _ _ _ extended := extended
  beside _ _ _ _ _ same extended := by
    unfold Extends
    rwa [same]
  push _ v _ extended := extended.push v
  pop _ _ _ extended := extended.pop

theorem Extends.run {top : Array Value} (extended : start.Extends top h)
    (held : ClassId → Bool) {c : Command} (still : c.movesStack = false) :
    start.Extends top (c.run held h) := by
  by_cases isSettle : c = .settle
  · subst isSettle
    exact extended
  · exact (steady_extends start).run held isSettle still extended

theorem unbrokenAbove_extends (start : Heap) :
    UnbrokenAbove start.stack.size fun h => ∃ top, start.Extends top h :=
  (steady_extends start).unbrokenAbove (fun _ _ extended => extended)
    (fun _ _ _ extended le => ⟨_, extended.cut le⟩) fun _ _ extended => extended.le_size

/-- **What was on the stack at the start stays there**, with more on top. -/
theorem Within.stack (within : Within start h) : ∃ top, start.Extends top h :=
  (unbrokenAbove_extends start).within ⟨#[], Array.append_empty.symm⟩ within

theorem Within.mem_stack (within : Within start h) {v : Value} (mem : v ∈ start.stack) :
    v ∈ h.stack := by
  obtain ⟨top, extended⟩ := within.stack
  rw [extended]
  exact Array.mem_append_left _ mem

theorem Within.le_size (within : Within start h) : start.stack.size ≤ h.stack.size :=
  let ⟨_, extended⟩ := within.stack
  extended.le_size

/-- Cutting the stack back to the height of the start restores it. -/
theorem Within.cutStack_stack (within : Within start h) :
    (h.cutStack start.stack.size).stack = start.stack := by
  obtain ⟨top, extended⟩ := within.stack
  exact extended.restore.trans Array.append_empty

theorem unbrokenAbove_within (start : Heap) :
    UnbrokenAbove start.stack.size (Within start) where
  run held _ _ stays within := within.step held stays
  high _ within := within.le_size

/-! ### Rooted objects stay -/

/-- The heap is intact, has the stack of the start with more on top, and has every
object that was rooted there. -/
structure Guards (start : Heap) (top : Array Value) (h : Heap) : Prop where
  intact : Intact h
  stack : start.Extends top h
  isValid : ∀ o, .object o ∈ start.stack → start.isValid o = true → h.isValid o = true

theorem Guards.congr {top top' : Array Value} {h' : Heap} (guards : start.Guards top h)
    (same : SameTable h h') (stack : start.Extends top' h') : start.Guards top' h' where
  intact := guards.intact.congr same
  stack := stack
  isValid o mem valid := by
    rw [same.isValid]
    exact guards.isValid o mem valid

theorem steady_guards (start : Heap) : Steady start.Guards where
  collect _ held h guards :=
    { intact := guards.intact.collect held
      stack := guards.stack
      isValid := fun o mem valid => by
        have before := guards.isValid o mem valid
        -- Whatever lies on the stack is a root of the collection.
        have rooted : .object o ∈ h.stack := by
          rw [guards.stack]
          exact Array.mem_append_left _ mem
        exact (isValid_collect_iff guards.intact).mpr
          ⟨before, .stack (Array.mem_def.mp rooted) before⟩ }
  place top obj h guards :=
    { intact := stable_intact.place obj h guards.intact
      stack := (steady_extends start).place top obj h guards.stack
      isValid := fun o mem valid => by
        rw [isValid_place guards.intact.freeIsEmpty, guards.isValid o mem valid,
          Bool.or_true] }
  store _ o obj new h found _ guards :=
    { intact := stable_intact.store o obj new h found guards.intact
      stack := guards.stack
      isValid := fun p mem valid => by
        rw [isValid_store found]
        exact guards.isValid p mem valid }
  beside top h h' same reaped stack guards :=
    guards.congr same ((steady_extends start).beside top h h' same reaped stack guards.stack)
  push _ v _ guards := guards.congr ⟨rfl, rfl, rfl, rfl, rfl⟩ (guards.stack.push v)
  pop _ _ _ guards := guards.congr ⟨rfl, rfl, rfl, rfl, rfl⟩ guards.stack.pop

/-- **An object rooted at the start and valid there stays valid.** -/
theorem Within.isValid (within : Within start h) (ok : Intact start) {o : Handle}
    (mem : .object o ∈ start.stack) (valid : start.isValid o = true) :
    h.isValid o = true := by
  have unbroken : UnbrokenAbove start.stack.size fun h => ∃ top, start.Guards top h :=
    (steady_guards start).unbrokenAbove
      (fun _ _ guards => guards.congr ⟨rfl, rfl, rfl, rfl, rfl⟩ guards.stack)
      (fun _ _ _ guards le =>
        ⟨_, guards.congr ⟨rfl, rfl, rfl, rfl, rfl⟩ (guards.stack.cut le)⟩)
      fun _ _ guards => guards.stack.le_size
  obtain ⟨top, guards⟩ :=
    unbroken.within ⟨#[], ok, Array.append_empty.symm, fun _ _ valid => valid⟩ within
  exact guards.isValid o mem valid

/-- What steps keep is kept within. -/
theorem Within.of_stable (within : Within start h) (stable : Stable I)
    (settled : ∀ h, I h → I { h with reaped := [] }) (hs : I start) : I h := by
  induction within with
  | refl => exact hs
  | @step h _ held c _ ih =>
      by_cases isSettle : c = .settle
      · subst isSettle
        exact settled h ih
      · exact stable.run held isSettle ih

theorem stable_id (id : HeapId) : Stable fun h => h.id = id where
  collect _ _ same := same
  place _ _ same := by rwa [place_id]
  store _ _ _ _ _ same := same
  beside _ _ table _ same := by rwa [table.id]

theorem Within.id (within : Within start h) : h.id = start.id :=
  within.of_stable (stable_id start.id) (fun _ same => same) rfl

/-- Being intact is kept within. -/
theorem Within.intact (within : Within start h) (ok : Intact start) : Intact h :=
  within.of_stable stable_intact (fun _ ok => ok.congr ⟨rfl, rfl, rfl, rfl, rfl⟩) ok

end HostObjects.Heap
