import HostObjects.Proofs.View.Scope

/-!
# Asking until one answers

An operation that goes through the classes of an object asks one source after the other until
one answers or fails, and what comes after that one is not asked.  `Consulted` is the course of
such questions, and `Action.Consults` says of an action that it takes this course in every
session; the rules for it follow the text of the operations.
-/

namespace HostObjects

open Heap

variable {σ β : Type} [Inhabited β] {s s' t : Session σ} {acts more : List (Action σ β)}
  {found : Except Fault β}

/-- A host function as a source; there may be none. -/
def Host.poll (host : Host σ) (r : Request β) : Option HostFunction → Action σ β
  | some f => host.answer f r
  | none => pure default

/-- Sources are asked one after the other, each in the session that the one before left.  The
default is no answer: the next source is asked.  An answer or a fault ends it. -/
inductive Consulted : List (Action σ β) → Session σ → Except Fault β → Session σ → Prop
  | exhausted (s : Session σ) : Consulted [] s (.ok default) s
  | answers {act : Action σ β} {acts : List (Action σ β)} {s s' : Session σ} {b : β}
      (answer : act s = (.ok b, s')) (something : b ≠ default) :
      Consulted (act :: acts) s (.ok b) s'
  | fails {act : Action σ β} {acts : List (Action σ β)} {s s' : Session σ} {e : Fault}
      (failure : act s = (.error e, s')) : Consulted (act :: acts) s (.error e) s'
  | passes {act : Action σ β} {acts : List (Action σ β)} {s t s' : Session σ}
      {found : Except Fault β} (pass : act s = (.ok default, t))
      (rest : Consulted acts t found s') : Consulted (act :: acts) s found s'

namespace Consulted

/-- What ended the search ended it whatever there is left to ask. -/
theorem append_of_ended (consulted : Consulted acts s found s') (ended : found ≠ .ok default) :
    Consulted (acts ++ more) s found s' := by
  induction consulted with
  | exhausted => exact absurd rfl ended
  | answers answer something => exact .answers answer something
  | fails failure => exact .fails failure
  | passes pass _ ih => exact .passes pass (ih ended)

theorem append (consulted : Consulted acts s (.ok default) t) (rest : Consulted more t found s') :
    Consulted (acts ++ more) s found s' := by
  generalize nothing : (Except.ok default : Except Fault β) = first at consulted
  induction consulted with
  | exhausted => exact rest
  | answers _ something =>
      cases nothing
      exact absurd rfl something
  | fails => cases nothing
  | passes pass _ ih => exact .passes pass (ih rest nothing)

/-- Once the first sources have not answered, the search is that of the others. -/
theorem rest (consulted : Consulted (acts ++ more) s found s')
    (first : Consulted acts s (.ok default) t) : Consulted more t found s' := by
  generalize nothing : (Except.ok default : Except Fault β) = none at first
  induction first with
  | exhausted => exact consulted
  | answers _ something =>
      cases nothing
      exact absurd rfl something
  | fails => cases nothing
  | passes pass _ ih =>
      refine ih ?_ nothing
      cases consulted with
      | answers answer something =>
          cases pass.symm.trans answer
          exact absurd rfl something
      | fails failure => cases pass.symm.trans failure
      | passes pass' rest =>
          cases pass.symm.trans pass'
          exact rest

/-- The first source ends the search if it is the last one, or answers or fails. -/
theorem of_head {act : Action σ β} (consulted : Consulted (act :: acts) s found s')
    (ends : acts = [] ∨ ∀ t, act s ≠ (.ok default, t)) : act s = (found, s') := by
  cases consulted with
  | answers answer => exact answer
  | fails failure => exact failure
  | passes pass rest =>
      rcases ends with rfl | ends
      · cases rest
        exact pass
      · exact absurd pass (ends _)

/-- Sources that never answer and change nothing. -/
theorem of_silent (silent : ∀ act ∈ acts, act s = (.ok default, s)) :
    Consulted acts s (.ok default) s := by
  induction acts with
  | nil => exact .exhausted s
  | cons act acts ih =>
      exact .passes (silent act List.mem_cons_self) (ih fun act mem =>
        silent act (List.mem_cons_of_mem _ mem))

/-- What every source keeps that does not answer is kept if none does. -/
theorem keeps {J : Session σ → Prop} (consulted : Consulted acts s (.ok default) t)
    (keep : ∀ act ∈ acts, ∀ s t, act s = (.ok default, t) → J s → J t) (hs : J s) : J t := by
  generalize nothing : (Except.ok default : Except Fault β) = first at consulted
  induction consulted with
  | exhausted => exact hs
  | answers _ something =>
      cases nothing
      exact absurd rfl something
  | fails => cases nothing
  | passes pass _ ih =>
      exact ih (fun act mem => keep act (List.mem_cons_of_mem _ mem))
        (keep _ List.mem_cons_self _ _ pass hs) nothing

/-- Sources that act above the stack and do not answer leave what is on it. -/
theorem within (consulted : Consulted acts s (.ok default) t) (above : ∀ act ∈ acts, act.Above) :
    Within s.heap t.heap := by
  refine consulted.keeps (J := fun u => Within s.heap u.heap) (fun act mem u v run before => ?_)
    .refl
  have after := ((above act mem).keeps (unbrokenAbove_within s.heap)).state before
  rwa [run] at after

end Consulted

/-- A source acts above the stack, if the functions of the host do. -/
theorem above_poll {host : Host σ} (lawful : host.Lawful) (r : Request β)
    (f : Option HostFunction) : (host.poll r f).Above := by
  cases f with
  | none => exact fun _ => .refl
  | some f => exact lawful f r

/-- The action asks the sources in order. -/
def Action.Consults (act : Action σ β) (acts : List (Action σ β)) : Prop :=
  ∀ s, Consulted acts s (act s).1 (act s).2

namespace Action.Consults

variable {act : Action σ β}

theorem nil : (pure default : Action σ β).Consults [] := fun s => .exhausted s

/-- A source that never answers may stand in front. -/
theorem skip (consults : act.Consults acts) : act.Consults (pure default :: acts) :=
  fun s => .passes rfl (consults s)

theorem single (act : Action σ β) : act.Consults [act] := by
  classical
  intro s
  rcases run : act s with ⟨e | b, t⟩
  · exact .fails run
  · by_cases nothing : b = default
    · subst nothing
      exact .passes run (.exhausted t)
    · exact .answers run nothing

/-- What goes on only without an answer asks the sources of both parts. -/
theorem bind {next : β → Action σ β} (first : act.Consults acts)
    (stop : ∀ b, b ≠ default → next b = pure b) (rest : (next default).Consults more) :
    (act >>= next).Consults (acts ++ more) := by
  classical
  intro s
  have consulted := first s
  rw [bind_apply]
  rcases run : act s with ⟨e | b, t⟩ <;> rw [run] at consulted
  · exact consulted.append_of_ended nofun
  · by_cases nothing : b = default
    · subst nothing
      exact consulted.append (rest t)
    · dsimp only
      rw [stop b nothing]
      exact consulted.append_of_ended fun same => nothing (Except.ok.inj same)

theorem bind_option {α : Type} {act : Action σ (Option α)} {acts more : List (Action σ (Option α))}
    {next : Option α → Action σ (Option α)} (first : act.Consults acts)
    (stop : ∀ a, next (some a) = pure (some a)) (rest : (next none).Consults more) :
    (act >>= next).Consults (acts ++ more) := by
  refine first.bind (fun v something => ?_) rest
  cases v with
  | none => exact absurd rfl something
  | some a => exact stop a

theorem bind_bool {act : Action σ Bool} {acts more : List (Action σ Bool)}
    {next : Bool → Action σ Bool} (first : act.Consults acts) (stop : next true = pure true)
    (rest : (next false).Consults more) : (act >>= next).Consults (acts ++ more) := by
  refine first.bind (fun b something => ?_) rest
  cases b with
  | false => exact absurd rfl something
  | true => exact stop

end Action.Consults

/-! ### A host that keeps books -/

/-- A host that records the calls, latest first: its `get` callbacks and getters answer in the
second call only, and its `has` callbacks fail. -/
def recordingHost : Host (List Nat) where
  finalize _ _ _ data calls := (data, calls)
  discard _ calls := calls
  holds _ _ := true
  answer f r := fun s =>
    let calls := f.number :: s.host
    (match r with
      | .get _ _ => .ok (if calls.length = 2 then some .null else none)
      | .has _ _ => .error (.thrown .null)
      | r => r.unanswered, { s with host := calls })

end HostObjects
