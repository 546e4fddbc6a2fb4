import HostObjects.Proofs.Script.Nesting
import HostObjects.Proofs.View.Balance
import HostObjects.Proofs.View.Operand

/-!
# Closed views leave no roots

Operations leave the stack of roots as it was but for their result, and a view cuts
the stack back when it closes.  So the stack of a group's heap is empty whenever no
view is open on it, whatever ran in the views: scopes and operations with callbacks
that open views again, contexts whose global object could not be set up, finalizers,
tasks and errors in any of them.

Scripted callbacks are lawful (`lawful_deeper`), so all that holds of operations with
lawful hosts holds of those in scripts.
-/

namespace HostObjects.Script

open Heap

variable {w : World} {away : HeapId → Prop}

/-! ### Scripted callbacks -/

/-- Expects nothing of any heap. -/
def Watch.any : Watch where
  lent _ := True
  kept _ := True
  rest _ := True
  away _ := True
  unbroken _ _ _ _ := trivial
  kept_new _ _ _ := trivial
  rest_empty := trivial

theorem Watch.home_any (t : HeapId) (g : Group Task) : Watch.any.Home t g :=
  ⟨fun _ _ => ⟨trivial, trivial⟩, fun _ => trivial⟩

/-- **Scripted callbacks act through the view that they are given.** -/
theorem lawful_deeper (n : Nat) : (deeper n).host.Lawful := by
  intro α f req s
  have opened : (Watch.any.lending (Within s.heap) none).Open s.heap.stack.size :=
    Watch.open_lending (unbrokenAbove_within s.heap)
  have before : (Watch.any.lending (Within s.heap) none).session s :=
    ⟨⟨_, s.host.lent, rfl, .refl, trivial⟩,
      fun t g _ => (Watch.home_any t g).lend, nofun⟩
  have after := ((calm_deeper n).answer _ _ opened f req).state before
  obtain ⟨l, rest, eq, within, -⟩ := after.lent
  cases eq
  exact within

/-! ### Groups whose views are closed -/

/-- The heap of a group has an empty stack while it is in the group; the heaps of some
groups may be away. -/
def World.AtRest (away : HeapId → Prop) (w : World) : Prop :=
  ∀ (t : HeapId) (g : Group Task), w.groups[t]? = some g →
    match g.heap with
    | some h => h.stack = #[]
    | none => away t

/-- The watch of worlds at rest, which have the heaps at hand that some property says. -/
def Watch.atRest (away : HeapId → Prop) (lent : List Lent → Prop) : Watch :=
  { Watch.any with lent := lent, rest := (· = #[]), away := away, rest_empty := rfl }

theorem holds_atRest_iff {lent : List Lent → Prop} :
    (Watch.atRest away lent).Holds w ↔ lent w.lent ∧ w.AtRest away := by
  refine ⟨fun hw => ⟨hw.lent, fun t g found => ?_⟩, fun hw => ⟨hw.1, fun t g found => ?_, nofun⟩⟩
  · have home := hw.groups t g found
    cases there : g.heap with
    | some h => exact (home.heap h there).2
    | none => exact home.away there
  · have rested := hw.2 t g found
    refine ⟨fun h there => ⟨trivial, ?_⟩, fun missing => ?_⟩
    · rw [there] at rested
      exact rested
    · rw [missing] at rested
      exact rested

/-- Steps in any environment are allowed by a watch that asks of the heaps at hand only
whether there are any. -/
theorem Watch.allows_of_lent {K : Watch} {ls : List Lent}
    (asks : K.lent = fun ls' => ls' = [] ↔ ls = []) (env : Environment) : K.Allows env := by
  have other : ∀ {l l' : Lent} {rest : List Lent}, K.lent (l :: rest) → K.lent (l' :: rest) := by
    intro l l' rest some
    rw [asks] at some ⊢
    exact ⟨nofun, fun eq => absurd (some.mpr eq) nofun⟩
  have opened : K.Open 0 :=
    { atHand := fun l rest some none => by
        rw [asks] at some none
        exact List.cons_ne_nil l rest (some.mpr (none.mp rfl))
      run := fun _ _ _ _ _ _ some => other some
      holding := fun _ _ _ some => other some
      high := fun _ _ _ => Nat.zero_le _
      push := fun _ _ _ some => other some
      cut := fun _ _ _ _ some => other some }
  cases env with
  | outside => trivial
  | heap => exact opened.toStill
  | view => exact ⟨0, opened⟩

/-- **Steps leave a world at rest.** -/
theorem atRest_runSteps (n : Nat) (env : Environment) (steps : List Step)
    (rested : w.AtRest away) : (runSteps (deeper n) env steps w).2.AtRest away := by
  have hw : (Watch.atRest away fun ls => ls = [] ↔ w.lent = []).Holds w :=
    holds_atRest_iff.mpr ⟨Iff.rfl, rested⟩
  have kept := maintains_runSteps (calm_deeper n) (Watch.allows_of_lent rfl env) steps w hw
  exact (holds_atRest_iff.mp kept).2

/-- **Roots are balanced.**  An operation that fails leaves the stack as it was, and one
that gives an answer leaves it as it was or with the object that it gives back on top,
whatever its callbacks do.  A script leaves no root in a group's heap whose views are
closed, however its views, scopes and operations are nested and whichever of them fail,
the creation of contexts included. -/
theorem roots_balanced :
    (∀ {σ : Type} (host : Host σ), host.Lawful →
      ∀ {α : Type} (q : Invocation α) (s : Session σ),
        match q.perform host s with
        | (.error _, s') => s'.heap.stack = s.heap.stack
        | (.ok a, s') =>
          s'.heap.stack = s.heap.stack ∨
            ∃ o, q.returned a = some (.object o) ∧
              s'.heap.stack = s.heap.stack.push (.object o)) ∧
    ∀ (n : Nat) (env : Environment) (steps : List Step) (away : HeapId → Prop) (w : World),
      w.AtRest away → (runSteps (deeper n) env steps w).2.AtRest away := by
  refine ⟨fun host lawful α q s => ?_, fun n env steps away w => atRest_runSteps n env steps⟩
  obtain ⟨answered, failed⟩ := q.meets_balanced lawful s rfl
  rcases run : q.perform host s with ⟨e | a, s'⟩
  · exact failed e s' run
  · exact answered a s' run

/-! ### A context that cannot be made -/

theorem atRest_empty : World.AtRest away {} := fun t g found => by
  simp at found

/-- A class whose set-up callback roots a value and fails. -/
def failingSpec : ClassSpec where
  version := 0
  name := "Global"
  automatic := true
  parent := none
  values := []
  functions := []
  callbacks :=
    [(.setUp,
      [{ name := .any, hint := .any, argc := .any, listed := .any, times := none
         steps := some [(true, .view none false (.pushRoot (.register "$obj")))]
         fault := some (.fault .notConstructable), result := none, names := [] }])]
  finalizer := none

/-- Fails to make a context with a global object of the class, makes one without, and
makes an object in a scope of its view. -/
def failingScript : List Step :=
  [.classNew "Global" failingSpec,
   .general none (.groupNew "g" (some {})),
   .general none (.contextNew "c" (some "g") (some "Global")),
   .general none (.contextNew "d" (some "g") none),
   .enter "d" [.scope [.view (some "o") false (.makeObject none none)],
     .view none false (.pushRoot (.register "o"))]]

/-- A call that collects gives back its receiver and roots at most that, and the script
leaves no root. -/
theorem roots_balanced_failing :
    let call := Invocation.call ⟨⟨0⟩, 2, 0⟩ (.object ⟨⟨0⟩, 3, 0⟩) []
    let done := call.perform collectingHost ⟨unrootedHeap, [], ()⟩
    done.1 = .ok (.object ⟨⟨0⟩, 3, 0⟩) ∧
      (done.2.heap.stack = #[] ∨ done.2.heap.stack = #[.object ⟨⟨0⟩, 3, 0⟩]) ∧
      (runSteps (deeper 2) .outside failingScript {}).2.AtRest fun _ => False := by
  intro call done
  have answered : done.1 = .ok (.object ⟨⟨0⟩, 3, 0⟩) := by decide +kernel
  have rooted := roots_balanced.1 collectingHost lawful_collectingHost call
    ⟨unrootedHeap, [], ()⟩
  refine ⟨answered, ?_, roots_balanced.2 2 .outside failingScript _ {} atRest_empty⟩
  have empty : unrootedHeap.stack = #[] := by decide +kernel
  rcases run : call.perform collectingHost ⟨unrootedHeap, [], ()⟩ with ⟨e | a, s'⟩
  · cases answered.symm.trans (congrArg Prod.fst run)
  · cases answered.symm.trans (congrArg Prod.fst run)
    rw [run] at rooted
    have same : done.2 = s' := congrArg Prod.snd run
    rw [same]
    obtain left | ⟨o, returned, pushed⟩ := rooted
    · exact Or.inl (left.trans empty)
    · cases returned
      exact Or.inr (pushed.trans (congrArg (fun S : Array Value => S.push _) empty))

end HostObjects.Script
