import HostObjects.Proofs.Heap.PrototypeChain
import HostObjects.View.Walk
import Std.Data.HashSet.Lemmas

/-!
# Walks along a known chain

A walk reads each prototype link when it comes to it, remembers where it has been and counts
its steps.  As long as the chain that it set out on is still there whenever it reads a link,
it visits the objects of the chain in order and comes to none a second time, so it is a
recursion over a list with a budget (`walkFrom_of_chain`).  Visits may change everything
else.
-/

namespace HostObjects

open Heap

variable {σ α β : Type} {visit : β → Handle → Action σ (α ⊕ β)} {J : Session σ → Prop}
  {o : Handle} {chain : List Handle}

namespace Heap.PrototypeChain

variable {h : Heap} {p q : Handle} {rest : List Handle}

/-- A chain starts at its object. -/
theorem eq_start (walk : PrototypeChain h o (q :: rest)) : q = o := by
  cases walk with
  | last | link => rfl

theorem prototype_of_singleton (walk : PrototypeChain h o [q]) :
    h.prototype o = .ok none := by
  cases walk with
  | last found => exact found
  | link _ rest => cases rest

/-- Behind its object, a chain is the chain of the prototype. -/
theorem of_cons (walk : PrototypeChain h o (q :: p :: rest)) :
    h.prototype o = .ok (some p) ∧ PrototypeChain h p (p :: rest) := by
  cases walk with
  | link found walk =>
      cases walk.eq_start
      exact ⟨found, walk⟩

/-- What keeps an object alive keeps its chain alive. -/
theorem alive {held : ClassId → Bool} (walk : PrototypeChain h o chain)
    (start : Alive held h (.object o)) : ∀ p ∈ chain, Alive held h (.object p) := by
  induction walk with
  | last =>
      intro p mem
      rw [List.mem_singleton.mp mem]
      exact start
  | link found walk ih =>
      intro p mem
      obtain ⟨obj, there, link⟩ := prototype_eq_ok_iff.mp found
      rcases List.mem_cons.mp mem with rfl | mem
      · exact start
      · exact ih (.prototype start there link walk.isValid_start) p mem

end Heap.PrototypeChain

/-- Visits the objects of a list until a visit gives the answer, at most as many as the
budget allows. -/
def visitAll (visit : β → Handle → Action σ (α ⊕ β)) :
    Nat → β → List Handle → Action σ (α ⊕ β)
  | _, acc, [] => return .inr acc
  | 0, _, _ :: _ => throw .prototypeChainTooDeep
  | budget + 1, acc, o :: os => do
    match ← visit acc o with
    | .inl a => return .inl a
    | .inr acc => visitAll visit budget acc os

/-- Visits after which the walk goes on keep a property of the session. -/
def KeptByVisits (J : Session σ → Prop) (visit : β → Handle → Action σ (α ⊕ β))
    (chain : List Handle) : Prop :=
  ∀ p ∈ chain, ∀ acc s, J s → ∀ acc' s', visit acc p s = (.ok (.inr acc'), s') → J s'

/-- A walk visits the objects of a chain that stays where it is, if it has been at none of
them. -/
theorem walk_of_chain {budget : Nat} {visited : Std.HashSet Handle}
    (linked : ∀ s, J s → PrototypeChain s.heap o chain) (kept : KeptByVisits J visit chain)
    (unvisited : ∀ p ∈ chain, p ∉ visited) (acc : β) {s : Session σ} (hs : J s) :
    walk visit budget visited acc (some o) s = visitAll visit budget acc chain s := by
  induction chain generalizing o budget visited acc s with
  | nil => cases linked s hs
  | cons q rest ih =>
      obtain rfl := (linked s hs).eq_start
      cases budget with
      | zero => rfl
      | succ budget =>
          have new : visited.contains q = false :=
            Bool.eq_false_iff.mpr fun seen => unvisited q List.mem_cons_self (by simpa using seen)
          have nodup := List.nodup_cons.mp (linked s hs).nodup
          unfold walk visitAll
          rw [new]
          show (visit acc q >>= _) s = (visit acc q >>= _) s
          rw [bind_apply, bind_apply]
          rcases done : visit acc q s with ⟨e | a | acc', s'⟩
          · rfl
          · rfl
          have hs' := kept q List.mem_cons_self acc s hs acc' s' done
          show (Action.reading (fun h => h.prototype q) >>= _) s' = _
          rw [bind_apply]
          cases rest with
          | nil =>
              simp only [Action.reading, (linked s' hs').prototype_of_singleton]
              cases budget <;> rfl
          | cons p rest =>
              simp only [Action.reading, (linked s' hs').of_cons.1]
              refine ih (fun t ht => (linked t ht).of_cons.2)
                (fun r mem => kept r (List.mem_cons_of_mem _ mem)) (fun r mem => ?_) acc' hs'
              rw [Std.HashSet.mem_insert, not_or, beq_iff_eq]
              exact ⟨fun same => nodup.1 (same ▸ mem), unvisited r (List.mem_cons_of_mem _ mem)⟩

/-- **A walk visits the objects of a chain in order**, as long as the chain stays where it
is while the walk goes on. -/
theorem walkFrom_of_chain (linked : ∀ s, J s → PrototypeChain s.heap o chain)
    (kept : KeptByVisits J visit chain) (start : β) {s : Session σ} (hs : J s) :
    walkFrom visit start (some o) s = visitAll visit maxPrototypeChain start chain s :=
  walk_of_chain linked kept (fun _ _ => Std.HashSet.not_mem_empty) start hs

/-- A walk visits the objects of a chain in order if the visits after which it goes on change
nothing. -/
theorem walkFrom_of_still {s : Session σ} (chained : PrototypeChain s.heap o chain)
    (still : ∀ p ∈ chain, ∀ acc acc' s', visit acc p s = (.ok (.inr acc'), s') → s' = s)
    (start : β) :
    walkFrom visit start (some o) s = visitAll visit maxPrototypeChain start chain s := by
  refine walkFrom_of_chain (J := (· = s)) (fun _ same => same ▸ chained) ?_ start rfl
  rintro p mem acc _ rfl acc' s' run
  exact still p mem acc acc' s' run

/-- A walk ends with the first visit, if that gives the answer or fails. -/
theorem walkFrom_of_ended {acc : β} {r : Except Fault (α ⊕ β)} {s s' : Session σ}
    (visited : visit acc o s = (r, s')) (ended : ∀ acc', r ≠ .ok (.inr acc')) :
    walkFrom visit acc (some o) s = (r, s') := by
  have step : ∀ budget, walk visit (budget + 1) ∅ acc (some o) s = (r, s') := by
    intro budget
    unfold walk
    rw [Std.HashSet.contains_empty]
    show (visit acc o >>= _) s = _
    rw [bind_apply, visited]
    rcases r with e | a | acc'
    · rfl
    · rfl
    · exact absurd rfl (ended acc')
  exact step _

/-- Visits that change nothing change nothing all together. -/
theorem visitAll_snd_of_still {ps : List Handle} {s : Session σ}
    (still : ∀ p ∈ ps, ∀ acc, (visit acc p s).2 = s) (budget : Nat) (acc : β) :
    (visitAll visit budget acc ps s).2 = s := by
  induction ps generalizing budget acc with
  | nil => cases budget <;> rfl
  | cons p ps ih =>
      cases budget with
      | zero => rfl
      | succ budget =>
          have same := still p List.mem_cons_self acc
          rw [visitAll, bind_apply]
          rcases run : visit acc p s with ⟨e | a | acc', s'⟩ <;>
            rw [run] at same <;> obtain rfl := same
          · rfl
          · rfl
          · exact ih (fun q mem => still q (List.mem_cons_of_mem _ mem)) budget acc'

/-! ### Visits that hand nothing on -/

section Searches

variable {visit : Unit → Handle → Action σ (α ⊕ Unit)} {budget : Nat} {before ps : List Handle}
  {s t : Session σ}

/-- Objects that do not answer use up the budget and nothing else. -/
theorem visitAll_append (unanswered : ∀ p ∈ before, visit () p s = (.ok (.inr ()), s))
    (short : before.length ≤ budget) :
    visitAll visit budget () (before ++ ps) s =
      visitAll visit (budget - before.length) () ps s := by
  induction before generalizing budget with
  | nil => rfl
  | cons p before ih =>
      obtain ⟨budget, rfl⟩ := Nat.exists_eq_add_of_le' (Nat.le_trans (Nat.succ_pos _) short)
      rw [List.cons_append, visitAll, bind_apply, unanswered p List.mem_cons_self]
      dsimp only
      rw [ih (fun q mem => unanswered q (List.mem_cons_of_mem _ mem))
        (Nat.le_of_succ_le_succ short), List.length_cons, Nat.add_sub_add_right]

/-- Where every visit ends without a fault, so do all together. -/
theorem visitAll_answers (each : ∀ p ∈ ps, ∃ r, visit () p s = (.ok r, s))
    (short : ps.length ≤ budget) : ∃ r, visitAll visit budget () ps s = (.ok r, s) := by
  induction ps generalizing budget with
  | nil => cases budget <;> exact ⟨.inr (), rfl⟩
  | cons p ps ih =>
      obtain ⟨budget, rfl⟩ := Nat.exists_eq_add_of_le' (Nat.le_trans (Nat.succ_pos _) short)
      obtain ⟨r, run⟩ := each p List.mem_cons_self
      rw [visitAll, bind_apply, run]
      cases r with
      | inl a => exact ⟨.inl a, rfl⟩
      | inr _ =>
          exact ih (fun q mem => each q (List.mem_cons_of_mem _ mem))
            (Nat.le_of_succ_le_succ short)

/-- An answer is given by one of the objects, after others that did not answer. -/
theorem answered_of_visitAll {a : α}
    (still : ∀ p ∈ ps, ∀ s', visit () p s = (.ok (.inr ()), s') → s' = s)
    (answer : visitAll visit budget () ps s = (.ok (.inl a), t)) :
    ∃ before p after, ps = before ++ p :: after ∧ before.length < budget ∧
      (∀ q ∈ before, visit () q s = (.ok (.inr ()), s)) ∧
      visit () p s = (.ok (.inl a), t) := by
  induction ps generalizing budget with
  | nil => cases budget <;> cases answer
  | cons p ps ih =>
      cases budget with
      | zero => cases answer
      | succ budget =>
          rw [visitAll, bind_apply] at answer
          rcases run : visit () p s with ⟨e | a' | ⟨⟩, s'⟩ <;> rw [run] at answer
          · cases answer
          · cases answer
            exact ⟨[], p, ps, rfl, Nat.succ_pos _, fun _ mem => absurd mem List.not_mem_nil, run⟩
          · obtain rfl := still p List.mem_cons_self s' run
            obtain ⟨before, q, after, split, short, unanswered, found⟩ :=
              ih (fun q mem => still q (List.mem_cons_of_mem _ mem)) answer
            refine ⟨p :: before, q, after, congrArg (p :: ·) split, Nat.succ_lt_succ short,
              fun r mem => ?_, found⟩
            rcases List.mem_cons.mp mem with rfl | mem
            · exact run
            · exact unanswered r mem

/-- Without an answer, no object has answered and none was left out. -/
theorem unanswered_of_visitAll
    (still : ∀ p ∈ ps, ∀ s', visit () p s = (.ok (.inr ()), s') → s' = s)
    (ended : visitAll visit budget () ps s = (.ok (.inr ()), t)) :
    ps.length ≤ budget ∧ ∀ p ∈ ps, visit () p s = (.ok (.inr ()), s) := by
  induction ps generalizing budget with
  | nil => exact ⟨Nat.zero_le _, fun _ mem => absurd mem List.not_mem_nil⟩
  | cons p ps ih =>
      cases budget with
      | zero => cases ended
      | succ budget =>
          rw [visitAll, bind_apply] at ended
          rcases run : visit () p s with ⟨e | a | ⟨⟩, s'⟩ <;> rw [run] at ended
          · cases ended
          · cases ended
          · obtain rfl := still p List.mem_cons_self s' run
            obtain ⟨short, unanswered⟩ :=
              ih (fun q mem => still q (List.mem_cons_of_mem _ mem)) ended
            refine ⟨Nat.succ_le_succ short, fun q mem => ?_⟩
            rcases List.mem_cons.mp mem with rfl | mem
            · exact run
            · exact unanswered q mem

end Searches

end HostObjects
