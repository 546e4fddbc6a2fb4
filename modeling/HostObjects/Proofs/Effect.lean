import Mathlib.Tactic.Common

/-!
# What operations do to a state

Heap operations, the operations of views and the steps of scripts are of one shape:
they may fail, and what they did before the failure stays done.  `Meets` is the contract of such an
operation: from a state with the precondition it ends with an answer and a state
that go together, or with a fault and a state about which less is known.
`Preserves` is the contract that says one thing of every state in between.

A proof about an operation follows its text, one rule for each line; what is
known of the state after a line is the precondition of the next.
-/

namespace HostObjects

variable {ε S α β : Type}

/-- An operation on a state that may fail. -/
abbrev Operating (ε S α : Type) := ExceptT ε (StateM S) α

/-- **The contract of an operation**: from every state with `P` it ends in `Q` with
an answer, or in `E` with a fault. -/
def Meets (P : S → Prop) (act : Operating ε S α) (Q : α → S → Prop) (E : S → Prop) :
    Prop :=
  ∀ s, P s →
    (∀ a s', act s = (.ok a, s') → Q a s') ∧ (∀ e s', act s = (.error e, s') → E s')

/-- The operation keeps a property of the state, whether it fails or not. -/
def Preserves (I : S → Prop) (act : Operating ε S α) : Prop := Meets I act (fun _ => I) I

/-! ### What the combinators run -/

theorem bind_apply (act : Operating ε S α) (next : α → Operating ε S β) (s : S) :
    (act >>= next) s =
      match act s with
      | (.ok a, s') => next a s'
      | (.error e, s') => (.error e, s') := by
  simp only [Bind.bind, ExceptT.bind, ExceptT.mk, StateT.bind]
  rcases act s with ⟨_ | _, _⟩ <;> rfl

/-- Two operations in a row answer if both do. -/
theorem of_bind_ok {act : Operating ε S α} {next : α → Operating ε S β} {s s' : S} {b : β}
    (run : (act >>= next) s = (.ok b, s')) :
    ∃ a t, act s = (.ok a, t) ∧ next a t = (.ok b, s') := by
  rw [bind_apply] at run
  rcases first : act s with ⟨e | a, t⟩
  · rw [first] at run
    cases run
  · rw [first] at run
    exact ⟨a, t, rfl, run⟩

theorem get_bind_apply (next : S → Operating ε S β) (s : S) :
    (MonadState.get >>= next) s = next s s := by
  rw [bind_apply]
  rfl

theorem map_apply (f : α → β) (act : Operating ε S α) (s : S) :
    (f <$> act) s =
      match act s with
      | (.ok a, s') => (.ok (f a), s')
      | (.error e, s') => (.error e, s') := by
  simp only [Functor.map, ExceptT.map, ExceptT.mk, Bind.bind, StateT.bind]
  rcases act s with ⟨_ | _, _⟩ <;> rfl

theorem tryCatch_apply (act : Operating ε S α) (handle : ε → Operating ε S α) (s : S) :
    (tryCatch act handle : Operating ε S α) s =
      match act s with
      | (.ok a, s') => (.ok a, s')
      | (.error e, s') => handle e s' := by
  simp only [tryCatch, tryCatchThe, MonadExceptOf.tryCatch, ExceptT.tryCatch, ExceptT.mk,
    Bind.bind, StateT.bind]
  rcases act s with ⟨_ | _, _⟩ <;> rfl

theorem tryFinally_apply (act : Operating ε S α) (last : Operating ε S β) (s : S) :
    (tryFinally act last : Operating ε S α) s =
      match act s with
      | (.ok a, s') =>
        match last s' with
        | (.ok _, s'') => (.ok a, s'')
        | (.error e, s'') => (.error e, s'')
      | (.error e, s') =>
        match last s' with
        | (.ok _, s'') => (.error e, s'')
        | (.error e', s'') => (.error e', s'') := by
  simp only [tryFinally, tryFinally', Functor.map, ExceptT.map, ExceptT.mk, Bind.bind,
    StateT.bind]
  rcases act s with ⟨_ | _, s'⟩ <;> dsimp only <;> rcases last s' with ⟨_ | _, _⟩ <;> rfl

/-! ### Rules -/

namespace Meets

variable {P P' : S → Prop} {act : Operating ε S α} {next : α → Operating ε S β}
  {Q Q' : α → S → Prop} {R : β → S → Prop} {E E' : S → Prop}

theorem imp (before : ∀ s, P' s → P s) (after : ∀ a s, Q a s → Q' a s)
    (failed : ∀ s, E s → E' s) (meets : Meets P act Q E) : Meets P' act Q' E' :=
  fun s hs => ⟨fun a s' run => after a s' ((meets s (before s hs)).1 a s' run),
    fun e s' run => failed s' ((meets s (before s hs)).2 e s' run)⟩

theorem pure {a : α} (post : ∀ s, P s → Q a s) :
    Meets P (Pure.pure a : Operating ε S α) Q E := by
  refine fun s hs => ⟨fun a' s' run => ?_, fun e s' run => ?_⟩
  · cases run
    exact post s hs
  · cases run

theorem bind (first : Meets P act Q E) (second : ∀ a, Meets (Q a) (next a) R E) :
    Meets P (act >>= next) R E := by
  intro s hs
  obtain ⟨answered, failed⟩ := first s hs
  rw [bind_apply]
  rcases run : act s with ⟨e | a, s'⟩
  · refine ⟨fun b t eq => ?_, fun e' t eq => ?_⟩
    · cases eq
    · cases eq
      exact failed e s' run
  · exact second a s' (answered a s' run)

theorem throw {e : ε} (failed : ∀ s, P s → E s) :
    Meets P (MonadExcept.throw e : Operating ε S α) Q E := by
  refine fun s hs => ⟨fun a s' run => ?_, fun e' s' run => ?_⟩
  · cases run
  · cases run
    exact failed s hs

/-- What is seen of the state is the state. -/
theorem get : Meets P (MonadState.get : Operating ε S S) (fun a s => P s ∧ a = s) E := by
  refine fun s hs => ⟨fun a s' run => ?_, fun e s' run => ?_⟩
  · cases run
    exact ⟨hs, rfl⟩
  · cases run

/-- A change of the state answers, and the changed states have what is to hold. -/
theorem modify {f : S → S} {J : S → Prop} (post : ∀ s, P s → J (f s)) :
    Meets P (modify f : Operating ε S Unit) (fun _ => J) E := by
  refine fun s hs => ⟨fun _ s' run => ?_, fun e s' run => ?_⟩
  · cases run
    exact post s hs
  · cases run

/-- A change of the state that answers with something seen on the way. -/
theorem modifyGet {f : S → α × S} (post : ∀ s, P s → Q (f s).1 (f s).2) :
    Meets P (MonadStateOf.modifyGet f : Operating ε S α) Q E := by
  refine fun s hs => ⟨fun a s' run => ?_, fun e s' run => ?_⟩
  · cases run
    exact post s hs
  · cases run

/-- A contract about each starting state on its own. -/
theorem of_each (each : ∀ s, P s → Meets (· = s) act Q E) : Meets P act Q E :=
  fun s hs => each s hs s rfl

/-- A contract that says one thing of every state at the end. -/
theorem of_state {J : S → Prop} (keep : ∀ s, P s → J (act s).2) :
    Meets P act (fun _ => J) J := by
  refine fun s hs => ⟨fun a s' run => ?_, fun e s' run => ?_⟩ <;>
  · have := keep s hs
    rwa [run] at this

theorem state {J : S → Prop} (meets : Meets P act (fun _ => J) J) {s : S} (hs : P s) :
    J (act s).2 := by
  rcases run : act s with ⟨e | a, s'⟩
  · exact (meets s hs).2 e s' run
  · exact (meets s hs).1 a s' run

/-- Two contracts of one operation hold together. -/
theorem and (first : Meets P act Q E) (second : Meets P' act Q' E') :
    Meets (fun s => P s ∧ P' s) act (fun a s => Q a s ∧ Q' a s) (fun s => E s ∧ E' s) :=
  fun s ⟨hs, hs'⟩ =>
    ⟨fun a s' run => ⟨(first s hs).1 a s' run, (second s hs').1 a s' run⟩,
      fun e s' run => ⟨(first s hs).2 e s' run, (second s hs').2 e s' run⟩⟩

/-- A contract, with what is known besides of the answers. -/
theorem also (meets : Meets P act Q E)
    (answers : ∀ s a s', P s → act s = (.ok a, s') → Q' a s') :
    Meets P act (fun a s => Q a s ∧ Q' a s) E :=
  fun s hs => ⟨fun a s' run => ⟨(meets s hs).1 a s' run, answers s a s' hs run⟩, (meets s hs).2⟩

/-- What runs last starts where the operation ended, with an answer or not. -/
theorem tryFinally {J R : S → Prop} {last : Operating ε S β}
    (first : Meets P act (fun _ => J) J) (second : Meets J last (fun _ => R) R) :
    Meets P (tryFinally act last) (fun _ => R) R := by
  refine of_state fun s hs => ?_
  have after := second.state (first.state hs)
  rw [tryFinally_apply]
  rcases run : act s with ⟨e | a, s'⟩ <;> rw [run] at after <;> dsimp only at after ⊢ <;>
  · rcases run' : last s' with ⟨e' | b, s''⟩ <;> rwa [run'] at after

theorem ite {c : Prop} [Decidable c] {yes no : Operating ε S α}
    (pos : c → Meets P yes Q E) (neg : ¬ c → Meets P no Q E) :
    Meets P (if c then yes else no) Q E := by
  split
  · next hc => exact pos hc
  · next hc => exact neg hc

end Meets

namespace Preserves

variable {I : S → Prop} {act : Operating ε S α} {next : α → Operating ε S β}

/-- A property is preserved if the operation has it in the state it ends with. -/
theorem of_state (keep : ∀ s, I s → I (act s).2) : Preserves I act :=
  Meets.of_state keep

theorem state (keep : Preserves I act) {s : S} (hs : I s) : I (act s).2 :=
  Meets.state keep hs

theorem pure (a : α) : Preserves I (Pure.pure a : Operating ε S α) :=
  Meets.pure fun _ hs => hs

theorem bind (first : Preserves I act) (second : ∀ a, Preserves I (next a)) :
    Preserves I (act >>= next) := Meets.bind first second

/-- What preserves two properties preserves both at once. -/
theorem and {J : S → Prop} (first : Preserves I act) (second : Preserves J act) :
    Preserves (fun s => I s ∧ J s) act :=
  Meets.and first second

theorem ite {c : Prop} [Decidable c] {yes no : Operating ε S α}
    (pos : c → Preserves I yes) (neg : ¬ c → Preserves I no) :
    Preserves I (if c then yes else no) := Meets.ite pos neg

theorem map (f : α → β) (keep : Preserves I act) : Preserves I (f <$> act) := by
  refine of_state fun s hs => ?_
  have after := keep.state hs
  rw [map_apply]
  rcases run : act s with ⟨_ | _, s'⟩ <;> rwa [run] at after

theorem throw (e : ε) : Preserves I (MonadExcept.throw e : Operating ε S α) :=
  of_state fun _ hs => hs

theorem tryCatch {handle : ε → Operating ε S α} (keep : Preserves I act)
    (handled : ∀ e, Preserves I (handle e)) :
    Preserves I (MonadExcept.tryCatch act handle) := by
  refine of_state fun s hs => ?_
  have after := keep.state hs
  rw [tryCatch_apply]
  rcases run : act s with ⟨e | a, s'⟩
  · rw [run] at after
    exact (handled e).state after
  · rwa [run] at after

/-- Looking at the state changes nothing. -/
theorem get : Preserves I (MonadState.get : Operating ε S S) :=
  of_state fun _ hs => hs

/-- A change of the state preserves what the changed states have. -/
theorem modifyGet {f : S → α × S} (keep : ∀ s, I s → I (f s).2) :
    Preserves I (MonadStateOf.modifyGet f : Operating ε S α) :=
  Meets.modifyGet keep

end Preserves

/-! ### Operations that cannot fail -/

/-- The operation on a state keeps a property of it. -/
def Maintains (I : S → Prop) (act : StateM S α) : Prop := ∀ s, I s → I (act s).2

namespace Maintains

variable {I : S → Prop} {act : StateM S α} {next : α → StateM S β}

theorem pure (a : α) : Maintains I (Pure.pure a : StateM S α) := fun _ hs => hs

theorem bind (first : Maintains I act) (second : ∀ a, Maintains I (next a)) :
    Maintains I (act >>= next) :=
  fun s hs => second (act s).1 (act s).2 (first s hs)

theorem get : Maintains I (MonadState.get : StateM S S) := fun _ hs => hs

theorem modify {f : S → S} (keep : ∀ s, I s → I (f s)) :
    Maintains I (modify f : StateM S Unit) := keep

/-- As a part of an operation that may fail. -/
theorem lift (keep : Maintains I act) :
    Preserves I (ExceptT.lift act : Operating ε S α) := by
  refine Preserves.of_state fun s hs => ?_
  exact keep s hs

end Maintains

end HostObjects
