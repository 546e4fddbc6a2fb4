import HostObjects.Proofs.Group.Owner

/-!
# Who owns the roots of a group

An owner of a root can be dropped at any moment: within a view, within a finalizer or
outside.  Its release is undone at once if the heap is in its group, and otherwise waits
for the next who takes the heap.  Meanwhile roots are added and removed, and places are
used again.

`Holdings` are a group together with its owners and the host's own ids, and `Act` is what
may happen to them, in any order.  `Step` says once what each act can do.  Each occupied
place of the table belongs to exactly one of three: an owner, a release that waits, or an
id of the host (`Orderly`).  So a release is undone once, in time, and never at the place
of somebody else; and every owner has what its root is for, exactly as long as nobody
overwrites the root from outside (`owners_keep_roots`).
-/

namespace HostObjects

open Heap

/-! ### Holdings -/

/-- A group, the heap while somebody has taken it, the owners that are alive, and the
ids of roots that the host added and has not removed. -/
structure Holdings (τ : Type) where
  group : Group τ
  hand : Option Heap
  owners : List Owner
  ids : List RootPlace

/-- What may happen to a group.  All but drops need the heap, and nothing happens
without it. -/
inductive Act where
  | lock
  | unlock
  | command (held : ClassId → Bool) (c : Command)
  | newContext (held : ClassId → Bool) (made : Option (Class × Handle))
  | newRoot (v : Value)
  | newManaged (v : Value) (owner : Option Node)
  | drop (o : Owner)

variable {τ : Type}

namespace Holdings

/-- A new group, with nothing that has a root. -/
def start (id : HeapId) (options : GroupOptions) (thread : ThreadId) : Holdings τ :=
  ⟨Group.new id options thread, none, [], []⟩

/-- The heap, wherever it is. -/
def heap (s : Holdings τ) : Heap := (s.hand <|> s.group.heap).getD default

/-- Makes an owner with the heap. -/
def acquire (make : HeapM Owner) (s : Holdings τ) : Holdings τ :=
  match s.hand with
  | none => s
  | some h =>
    match make h with
    | (.ok o, h') => { s with hand := some h', owners := o :: s.owners }
    | (.error _, h') => { s with hand := some h' }

/-- Drops an owner that is alive. -/
def drop (o : Owner) (s : Holdings τ) : Holdings τ :=
  if o ∈ s.owners then
    { s with
      owners := s.owners.erase o
      group := o.release?.elim s.group fun r => s.group.release r }
  else s

/-- The places that belong to somebody. -/
def places (s : Holdings τ) : List RootPlace :=
  s.owners.filterMap Owner.place? ++
    (s.group.pending.filterMap Release.place? ++ s.ids)

end Holdings

/-- The ids of the host after a command. -/
def Heap.Command.hostIds (h : Heap) (ids : List RootPlace) : Command → List RootPlace
  | addRoot v => (h.addRoot v).1 :: ids
  | removeRoot r => ids.erase r
  | _ => ids

namespace Act

/-- What an act makes of the holdings. -/
def run (s : Holdings τ) : Act → Holdings τ
  | lock =>
    match s.group.lend? with
    | some (h, g) => { s with group := g, hand := some h }
    | none => s
  | unlock =>
    match s.hand with
    | some h => { s with group := s.group.giveBack h, hand := none }
    | none => s
  | command held c =>
    match s.hand with
    | some h => { s with hand := some (c.run held h), ids := c.hostIds h s.ids }
    | none => s
  | newContext held made => s.acquire (Owner.makeContext held made)
  | newRoot v => s.acquire (Owner.root <$> newOwnedRoot v)
  | newManaged v owner => s.acquire (Owner.managed <$> Heap.newManaged v owner)
  | drop o => s.drop o

/-- The release that an act leaves to be undone. -/
def left (s : Holdings τ) : Act → List Release
  | drop o => if o ∈ s.owners then o.release?.toList else []
  | _ => []

/-- The releases that an act undoes: those that waited, or that of a drop while the heap
is in its group. -/
def undone (s : Holdings τ) : Act → List Release
  | lock => if s.hand.isNone then s.group.pending else []
  | drop o => if o ∈ s.owners ∧ s.hand.isNone then o.release?.toList else []
  | _ => []

/-- The host removes only roots that it added and has not removed. -/
def RemovesOwn (s : Holdings τ) : Act → Prop
  | command _ (.removeRoot r) => s.hand.isSome → r ∈ s.ids
  | _ => True

/-- The act puts a value in the place of an owner's root that the root is not for. -/
def Overwrites (s : Holdings τ) : Act → Prop
  | command _ (.setRoot r v) =>
    s.hand.isSome ∧ ∃ o ∈ s.owners, o.place? = some r ∧ ¬ o.Accepts s.heap v
  | _ => False

end Act

/-! ### What an act does -/

variable {s s' : Holdings τ} {a : Act}

/-- The heap is in one place, and its roots belong to somebody each. -/
structure Orderly (s : Holdings τ) : Prop where
  /-- The group is locked as long as somebody has the heap. -/
  whole : s.group.isLocked = s.hand.isSome
  assigned : Assigned s.heap s.places

/-- Every owner has what its root is for: the global object of every context is valid and
rooted, and the object of every owned root is valid. -/
def Secure (s : Holdings τ) : Prop := ∀ o ∈ s.owners, o.Safe s.heap

theorem Secure.isValid_global (secure : Secure s) {global : Handle} {r : RootPlace}
    (alive : .context global r ∈ s.owners) : s.heap.isValid global = true := by
  obtain ⟨v, -, -, valid⟩ := secure _ alive r rfl
  exact valid

theorem Secure.isValid_held (secure : Secure s) {r : OwnedRoot} {o : Handle}
    (alive : .root r ∈ s.owners) (root : s.heap.root? r.root = some (.object o)) :
    s.heap.isValid o = true := by
  obtain ⟨v, there, storable⟩ := secure _ alive r.root rfl
  rw [root, Option.some.injEq] at there
  subst there
  exact checkStorable_eq_ok_iff.mp storable o rfl

/-- What an act can do. -/
inductive Step (s : Holdings τ) : Act → Holdings τ → Prop where
  /-- There is nothing to do it with. -/
  | idle {a : Act} (noLeft : a.left s = []) (noUndone : a.undone s = []) : Step s a s
  | lock {h : Heap} (home : s.group.heap = some h) (free : s.hand = none) :
      Step s .lock
        { s with
          group := { s.group with heap := none, pending := [] }
          hand := some (Release.applyAll h s.group.pending) }
  | unlock {h : Heap} (hand : s.hand = some h) :
      Step s .unlock { s with group := s.group.giveBack h, hand := none }
  | command {h : Heap} (hand : s.hand = some h) (held : ClassId → Bool) (c : Command) :
      Step s (.command held c)
        { s with hand := some (c.run held h), ids := c.hostIds h s.ids }
  /-- An owner could not be made. -/
  | failed {a : Act} {h h' : Heap} (hand : s.hand = some h) (kept : RootsKept h h')
      (noLeft : a.left s = []) (noUndone : a.undone s = []) :
      Step s a { s with hand := some h' }
  | made {a : Act} {h h₁ h' : Heap} {o : Owner} (hand : s.hand = some h)
      (kept : RootsKept h h₁) (grants : Grants h₁ o h')
      (noLeft : a.left s = []) (noUndone : a.undone s = []) :
      Step s a { s with hand := some h', owners := o :: s.owners }
  /-- A drop while the heap is in its group. -/
  | dropHome {h : Heap} {o : Owner} (mem : o ∈ s.owners) (home : s.group.heap = some h)
      (free : s.hand = none) :
      Step s (.drop o)
        { s with
          owners := s.owners.erase o
          group := { s.group with
            heap := some (Release.applyAll h o.release?.toList) } }
  /-- A drop while somebody has the heap. -/
  | dropAway {h : Heap} {o : Owner} (mem : o ∈ s.owners) (hand : s.hand = some h)
      (away : s.group.heap = none) :
      Step s (.drop o)
        { s with
          owners := s.owners.erase o
          group := { s.group with
            pending := s.group.pending ++ o.release?.toList } }

theorem heap_of_hand {h : Heap} (hand : s.hand = some h) : s.heap = h := by
  unfold Holdings.heap
  rw [hand]
  rfl

theorem heap_of_home {h : Heap} (free : s.hand = none) (home : s.group.heap = some h) :
    s.heap = h := by
  unfold Holdings.heap
  rw [free, home]
  rfl

/-- The heap is with somebody or in its group. -/
theorem Orderly.located (orderly : Orderly s) :
    (∃ h, s.hand = none ∧ s.group.heap = some h) ∨
      ∃ h, s.hand = some h ∧ s.group.heap = none := by
  have whole := orderly.whole
  unfold Group.isLocked at whole
  cases hand : s.hand with
  | none =>
      rw [hand] at whole
      obtain ⟨h, home⟩ := Option.isSome_iff_exists.mp (Option.isNone_eq_false_iff.mp whole)
      exact Or.inl ⟨h, rfl, home⟩
  | some h =>
      rw [hand] at whole
      exact Or.inr ⟨h, rfl, Option.isNone_iff_eq_none.mp whole⟩

theorem Group.release_home {g : Group τ} {h : Heap} (home : g.heap = some h)
    (rel : Option Release) :
    (rel.elim g fun r => g.release r) =
      { g with heap := some (Release.applyAll h rel.toList) } := by
  cases rel with
  | none =>
      show g = { g with heap := some h }
      rw [← home]
  | some r =>
      show g.release r = _
      unfold Group.release
      rw [home]
      rfl

theorem Group.release_away {g : Group τ} (away : g.heap = none) (rel : Option Release) :
    (rel.elim g fun r => g.release r) =
      { g with pending := g.pending ++ rel.toList } := by
  cases rel with
  | none =>
      show g = { g with pending := g.pending ++ [] }
      rw [List.append_nil]
  | some r =>
      show g.release r = _
      unfold Group.release
      rw [away]
      rfl

theorem step_acquire (orderly : Orderly s) {make : HeapM Owner} (makes : Makes make)
    (noLeft : a.left s = []) (noUndone : a.undone s = []) : Step s a (s.acquire make) := by
  unfold Holdings.acquire
  cases hand : s.hand with
  | none => exact .idle noLeft noUndone
  | some h =>
      have ok : Intact h := heap_of_hand hand ▸ orderly.assigned.intact
      obtain ⟨made, failed⟩ := makes h ok h ⟨ok, rfl, rfl, fun _ _ valid => valid⟩
      dsimp only
      rcases run : make h with ⟨e | o, h'⟩
      · exact .failed hand (failed e h' run) noLeft noUndone
      · obtain ⟨h₁, kept, grants⟩ := made o h' run
        exact .made hand kept grants noLeft noUndone

/-- **An act does one of these.** -/
theorem Orderly.step (orderly : Orderly s) (a : Act) : Step s a (a.run s) := by
  cases a with
  | lock =>
      show Step s .lock (match s.group.lend? with | some (h, g) => _ | none => s)
      rcases orderly.located with ⟨h, free, home⟩ | ⟨h, hand, away⟩
      · rw [Group.lend?, home]
        exact .lock home free
      · rw [Group.lend?, away]
        exact .idle rfl (by rw [Act.undone, hand]; rfl)
  | unlock =>
      show Step s .unlock (match s.hand with | some h => _ | none => s)
      cases hand : s.hand with
      | none => exact .idle rfl rfl
      | some h => exact .unlock hand
  | command held c =>
      show Step s (.command held c) (match s.hand with | some h => _ | none => s)
      cases hand : s.hand with
      | none => exact .idle rfl rfl
      | some h => exact .command hand held c
  | newContext held made => exact step_acquire orderly (makes_context held made) rfl rfl
  | newRoot v => exact step_acquire orderly (makes_root v) rfl rfl
  | newManaged v owner => exact step_acquire orderly (makes_managed v owner) rfl rfl
  | drop o =>
      show Step s (.drop o) (s.drop o)
      unfold Holdings.drop
      by_cases mem : o ∈ s.owners
      · rw [if_pos mem]
        rcases orderly.located with ⟨h, free, home⟩ | ⟨h, hand, away⟩
        · rw [Group.release_home home]
          exact .dropHome mem home free
        · rw [Group.release_away away]
          exact .dropAway mem hand away
      · rw [if_neg mem]
        refine .idle ?_ ?_
        · rw [Act.left, if_neg mem]
        · rw [Act.undone, if_neg fun both => mem both.1]

/-! ### Places belong to one each -/

theorem place?_release? (o : Owner) : o.release?.bind Release.place? = o.place? := by
  cases o with
  | context | root => rfl
  | managed m =>
      obtain ⟨v, owner, id⟩ := m
      cases owner <;> cases v <;> rfl

theorem perm_places_drop {o : Owner} (mem : o ∈ s.owners) :
    s.places.Perm (o.place?.toList ++
      ((s.owners.erase o).filterMap Owner.place? ++
        (s.group.pending.filterMap Release.place? ++ s.ids))) := by
  have first := (List.perm_cons_erase mem).filterMap Owner.place?
  rw [filterMap_cons_eq] at first
  rw [← List.append_assoc]
  exact first.append_right _

/-- A host that removes its own ids removes nobody else's root. -/
theorem Orderly.not_owned (orderly : Orderly s) {r : RootPlace} (mem : r ∈ s.ids)
    {o : Owner} (owner : o ∈ s.owners) : o.place? ≠ some r := by
  intro place
  have apart := (List.nodup_append'.mp orderly.assigned.nodup).2.2
  exact apart (List.mem_filterMap.mpr ⟨o, owner, place⟩) (List.mem_append_right _ mem)

theorem filterMap_place?_toList (o : Owner) :
    o.release?.toList.filterMap Release.place? = o.place?.toList := by
  rw [← place?_release?]
  cases o.release? with
  | none => rfl
  | some rel => cases rel <;> rfl

/-- **Every act keeps order**, as long as the host removes its own ids only. -/
theorem Orderly.of_step (orderly : Orderly s) (own : a.RemovesOwn s) (step : Step s a s') :
    Orderly s' := by
  obtain ⟨whole, assigned⟩ := orderly
  cases step with
  | idle => exact ⟨whole, assigned⟩
  | @lock h home free =>
      refine ⟨rfl, ?_⟩
      rw [heap_of_home free home] at assigned
      refine (assigned.perm ?_).applyAll
      -- What waited is undone, and the rest stays.
      exact List.perm_append_comm_assoc _ _ _
  | @unlock h hand =>
      refine ⟨rfl, ?_⟩
      rwa [heap_of_hand hand] at assigned
  | @command h hand held c =>
      refine ⟨by rw [hand] at whole; exact whole, ?_⟩
      rw [heap_of_hand hand] at assigned
      show Assigned (c.run held h) (_ ++ (_ ++ c.hostIds h s.ids))
      cases moves : c.movesRoots with
      | false =>
          have same : c.hostIds h s.ids = s.ids := by
            cases c with
            | addRoot | removeRoot => cases moves
            | _ => rfl
          rw [same]
          exact assigned.kept (rootsKept_run assigned.intact held moves)
      | true =>
          cases c with
          | addRoot v =>
              refine (assigned.addRoot v).perm ?_
              show ((h.addRoot v).1 :: (_ ++ (_ ++ s.ids))).Perm
                (_ ++ (_ ++ (h.addRoot v).1 :: s.ids))
              rw [← List.append_assoc, ← List.append_assoc]
              exact List.perm_middle.symm
          | setRoot r v => exact assigned.setRoot r v
          | removeRoot r =>
              have mem : r ∈ s.ids := own (by rw [hand]; rfl)
              refine (assigned.removeRoot r).perm (List.Perm.of_eq ?_)
              have nodup := assigned.nodup
              unfold Holdings.places at nodup ⊢
              rw [← List.append_assoc] at nodup ⊢
              have apart := (List.nodup_append'.mp nodup).2.2
              rw [List.erase_append_right _ fun other => apart other mem,
                List.append_assoc]
              rfl
          | _ => cases moves
  | @failed _ h h' hand kept =>
      refine ⟨by rw [hand] at whole; exact whole, ?_⟩
      rw [heap_of_hand hand] at assigned
      exact assigned.kept kept
  | @made _ h h₁ h' o hand kept grants =>
      refine ⟨by rw [hand] at whole; exact whole, ?_⟩
      rw [heap_of_hand hand] at assigned
      have more := grants.assigned (assigned.kept kept)
      show Assigned h' ((o :: s.owners).filterMap Owner.place? ++ _)
      rw [filterMap_cons_eq, List.append_assoc]
      exact more
  | @dropHome h o mem home free =>
      refine ⟨by rw [free]; rfl, ?_⟩
      rw [heap_of_home free home] at assigned
      have dropped := assigned.perm (perm_places_drop mem)
      rw [← filterMap_place?_toList] at dropped
      have undone := dropped.applyAll
      rwa [← heap_of_home (s := { s with
        owners := s.owners.erase o
        group := { s.group with
          heap := some (Release.applyAll h o.release?.toList) } }) free rfl] at undone
  | @dropAway h o mem hand away =>
      refine ⟨whole, ?_⟩
      refine assigned.perm ((perm_places_drop mem).trans ?_)
      show List.Perm _ (_ ++ ((s.group.pending ++ o.release?.toList).filterMap _ ++ s.ids))
      rw [List.filterMap_append, filterMap_place?_toList]
      refine (List.perm_append_comm_assoc _ _ _).trans (List.Perm.append_left _ ?_)
      rw [List.append_assoc]
      exact List.perm_append_comm_assoc _ _ _

/-! ### Nobody else's root is released -/

/-- **What an act undoes is at no place of an owner that stays**, nor of the host. -/
theorem Orderly.spares (orderly : Orderly s) (step : Step s a s') {r : RootPlace}
    (undone : .root r ∈ a.undone s) :
    (∀ o ∈ s.owners, o ∈ s'.owners → o.place? ≠ some r) ∧ r ∉ s.ids := by
  have nodup := orderly.assigned.nodup
  have owned : ∀ {o}, o ∈ s.owners → o.place? = some r →
      r ∈ s.owners.filterMap Owner.place? :=
    fun mem place => List.mem_filterMap.mpr ⟨_, mem, place⟩
  cases step with
  | idle _ noUndone | failed _ _ _ noUndone | made _ _ _ _ noUndone =>
      rw [noUndone] at undone
      cases undone
  | unlock | command => cases undone
  | lock home free =>
      have waited : r ∈ s.group.pending.filterMap Release.place? := by
        rw [Act.undone, free] at undone
        exact List.mem_filterMap.mpr ⟨_, undone, rfl⟩
      obtain ⟨-, rest, apart⟩ := List.nodup_append'.mp nodup
      refine ⟨fun o mem _ place => ?_, fun mem => ?_⟩
      · exact apart (owned mem place) (List.mem_append_left _ waited)
      · exact (List.nodup_append'.mp rest).2.2 waited mem
  | @dropHome _ o mem home free =>
      have own : o.place? = some r := by
        rw [Act.undone, if_pos ⟨mem, by rw [free]; rfl⟩, Option.mem_toList] at undone
        rw [← place?_release?, undone]
        rfl
      have first := (perm_places_drop mem).nodup_iff.mp nodup
      rw [own] at first
      change (r :: ((s.owners.erase o).filterMap Owner.place? ++ _)).Nodup at first
      have others := (List.nodup_cons.mp first).1
      refine ⟨fun p _ stays place => ?_, fun ids => ?_⟩
      · exact others (List.mem_append_left _ (List.mem_filterMap.mpr ⟨p, stays, place⟩))
      · exact others (List.mem_append_right _ (List.mem_append_right _ ids))
  | dropAway mem hand =>
      rw [Act.undone, if_neg fun both => by rw [hand] at both; cases both.2] at undone
      cases undone

/-- What an owner has stays while the host works with the heap. -/
theorem Owner.Safe.command {h : Heap} {o : Owner} (safe : o.Safe h) (ok : Intact h)
    (tidy : RootsTidy h) (held : ClassId → Bool) {c : Command}
    (spared : ∀ r, c = .removeRoot r → o.place? ≠ some r)
    (accepted : ∀ r v, c = .setRoot r v → o.place? = some r → o.Accepts h v) :
    o.Safe (c.run held h) := by
  cases moves : c.movesRoots with
  | false => exact safe.kept (rootsKept_run ok held moves)
  | true =>
      cases c with
      | addRoot v => exact safe.addRoot tidy v
      | setRoot r v => exact (Owner.safe_setRoot_iff safe r v).mpr (accepted r v rfl)
      | removeRoot r => exact safe.removeRoot (spared r rfl)
      | _ => cases moves

/-- **Every act keeps the owners safe**, unless it overwrites a root of theirs. -/
theorem Secure.of_step (secure : Secure s) (orderly : Orderly s) (own : a.RemovesOwn s)
    (calm : ¬ a.Overwrites s) (step : Step s a s') : Secure s' := by
  have spares : ∀ r, .root r ∈ a.undone s → _ := fun r => orderly.spares step
  have ok := orderly.assigned.intact
  have tidy := orderly.assigned.tidy
  cases step with
  | idle => exact secure
  | @lock h home free =>
      intro o mem
      have safe := secure o mem
      rw [heap_of_home free home] at safe
      refine safe.applyAll fun r place waits => ?_
      refine (spares r ?_).1 o mem mem place
      rwa [Act.undone, free]
  | @unlock h hand =>
      intro o mem
      have safe := secure o mem
      rwa [heap_of_hand hand] at safe
  | @command h hand held c =>
      intro o mem
      have safe := secure o mem
      rw [heap_of_hand hand] at ok tidy safe
      refine safe.command ok tidy held ?_ ?_
      · rintro r rfl
        exact orderly.not_owned (own (by rw [hand]; rfl)) mem
      · rintro r v rfl place
        by_contra refused
        refine calm ⟨by rw [hand]; rfl, o, mem, place, ?_⟩
        rwa [heap_of_hand hand]
  | @failed _ h h' hand kept =>
      intro o mem
      have safe := secure o mem
      rw [heap_of_hand hand] at safe
      exact safe.kept kept
  | @made _ h h₁ h' p hand kept grants =>
      rw [heap_of_hand hand] at tidy
      have later := tidy.congr kept.roots kept.freeRoots
      intro o mem
      rcases List.mem_cons.mp mem with rfl | mem
      · exact grants.safe later
      · have safe := secure o mem
        rw [heap_of_hand hand] at safe
        exact grants.safe_of_safe later (safe.kept kept)
  | @dropHome h p there home free =>
      intro o stays
      have mem := List.mem_of_mem_erase stays
      have safe := secure o mem
      rw [heap_of_home free home] at safe
      rw [heap_of_home (s := { s with
        owners := s.owners.erase p
        group := { s.group with
          heap := some (Release.applyAll h p.release?.toList) } }) free rfl]
      refine safe.applyAll fun r place waits => ?_
      refine (spares r ?_).1 o mem stays place
      rwa [Act.undone, if_pos ⟨there, by rw [free]; rfl⟩]
  | dropAway =>
      intro o stays
      exact secure o (List.mem_of_mem_erase stays)

/-- An owner whose root is overwritten is not safe any more. -/
theorem not_secure_of_overwrites (secure : Secure s) (overwritten : a.Overwrites s) :
    ¬ Secure (a.run s) := by
  cases a with
  | command held c =>
      cases c with
      | setRoot r v =>
          obtain ⟨hand, o, mem, place, refused⟩ := overwritten
          obtain ⟨h, hand⟩ := Option.isSome_iff_exists.mp hand
          have safe := secure o mem
          rw [heap_of_hand hand] at safe refused
          have after : Act.run s (.command held (.setRoot r v)) =
              { s with hand := some (h.setRoot r v) } := by
            rw [Act.run, hand]
            rfl
          intro later
          rw [after] at later
          exact refused ((Owner.safe_setRoot_iff safe r v).mp (later o mem) place)
      | _ => cases overwritten
  | _ => cases overwritten

/-! ### When a release is undone -/

/-- The releases that wait and those that an act leaves are those that it undoes and
those that wait then. -/
theorem perm_of_step (step : Step s a s') :
    (s.group.pending ++ a.left s).Perm (a.undone s ++ s'.group.pending) := by
  cases step with
  | idle noLeft noUndone | failed _ _ noLeft noUndone | made _ _ _ noLeft noUndone =>
      rw [noLeft, noUndone, List.append_nil]
      exact List.Perm.refl _
  | lock home free =>
      rw [Act.undone, free]
      exact List.Perm.refl _
  | unlock | command =>
      rw [show (s.group.pending ++ Act.left s _) = s.group.pending from List.append_nil _]
      exact List.Perm.refl _
  | dropHome mem home free =>
      rw [Act.left, Act.undone, if_pos mem, if_pos ⟨mem, by rw [free]; rfl⟩]
      exact List.perm_append_comm
  | dropAway mem hand =>
      rw [Act.left, Act.undone, if_pos mem, if_neg fun both => by rw [hand] at both; cases both.2]
      exact List.Perm.refl _

/-- What an act owes to a drop: its release is undone at once if the heap is in its
group, and waits otherwise; whoever locks the heap undoes all that waits; and none of it
is somebody else's root. -/
structure UndoesInTime (s : Holdings τ) (a : Act) : Prop where
  atOnce : ∀ o ∈ s.owners, a = .drop o → s.hand = none →
    (a.run s).heap = Release.applyAll s.heap o.release?.toList ∧
      (a.run s).group.pending = s.group.pending
  waits : ∀ o ∈ s.owners, a = .drop o → s.hand ≠ none →
    (a.run s).heap = s.heap ∧
      (a.run s).group.pending = s.group.pending ++ o.release?.toList
  nextLock : a = .lock → s.hand = none →
    (a.run s).heap = Release.applyAll s.heap s.group.pending ∧
      (a.run s).group.pending = []
  spares : ∀ r, .root r ∈ a.undone s →
    (∀ o ∈ s.owners, o ∈ (a.run s).owners → o.place? ≠ some r) ∧ r ∉ s.ids

theorem Orderly.undoesInTime (orderly : Orderly s) (a : Act) : UndoesInTime s a where
  atOnce o mem eq free := by
    subst eq
    rcases orderly.located with ⟨h, -, home⟩ | ⟨h, hand, -⟩
    · have after : Act.run s (.drop o) = { s with
          owners := s.owners.erase o
          group := { s.group with heap := some (Release.applyAll h o.release?.toList) } } := by
        rw [Act.run, Holdings.drop, if_pos mem, Group.release_home home]
      rw [after, heap_of_home free home]
      exact ⟨heap_of_home free rfl, rfl⟩
    · rw [hand] at free
      cases free
  waits o mem eq taken := by
    subst eq
    rcases orderly.located with ⟨h, free, -⟩ | ⟨h, hand, away⟩
    · exact absurd free taken
    · have after : Act.run s (.drop o) = { s with
          owners := s.owners.erase o
          group := { s.group with pending := s.group.pending ++ o.release?.toList } } := by
        rw [Act.run, Holdings.drop, if_pos mem, Group.release_away away]
      rw [after]
      exact ⟨rfl, rfl⟩
  nextLock eq free := by
    subst eq
    rcases orderly.located with ⟨h, -, home⟩ | ⟨h, hand, -⟩
    · have after : Act.run s .lock = { s with
          group := { s.group with heap := none, pending := [] }
          hand := some (Release.applyAll h s.group.pending) } := by
        rw [Act.run, Group.lend?, home]
        rfl
      rw [after, heap_of_home free home]
      exact ⟨rfl, rfl⟩
    · rw [hand] at free
      cases free
  spares r undone := orderly.spares (orderly.step a) undone

/-! ### Runs -/

namespace Holdings

/-- The holdings after some acts. -/
def after (s : Holdings τ) (acts : List Act) : Holdings τ := acts.foldl (fun s a => a.run s) s

/-- The holdings of a run, the first ones included. -/
def states (s : Holdings τ) : List Act → List (Holdings τ)
  | [] => [s]
  | a :: as => s :: (a.run s).states as

/-- The host removes its own ids only, in the whole run. -/
def AllOwn (s : Holdings τ) : List Act → Prop
  | [] => True
  | a :: as => a.RemovesOwn s ∧ (a.run s).AllOwn as

/-- Some act of the run overwrites the root of an owner. -/
def SomeOverwritten (s : Holdings τ) : List Act → Prop
  | [] => False
  | a :: as => a.Overwrites s ∨ (a.run s).SomeOverwritten as

/-- The releases that the drops of a run leave. -/
def leftAlong (s : Holdings τ) : List Act → List Release
  | [] => []
  | a :: as => a.left s ++ (a.run s).leftAlong as

/-- The releases that a run undoes. -/
def undoneAlong (s : Holdings τ) : List Act → List Release
  | [] => []
  | a :: as => a.undone s ++ (a.run s).undoneAlong as

end Holdings

open Holdings

theorem orderly_start (id : HeapId) (options : GroupOptions) (thread : ThreadId) :
    Orderly (start id options thread : Holdings τ) where
  whole := rfl
  assigned :=
    { intact := intact_new id options.limits options.mode
      tidy := (Reachable.new id options.limits options.mode).rootsTidy
      nodup := List.nodup_nil
      mem_iff := fun r => by
        refine iff_of_false List.not_mem_nil (not_not.mpr ?_)
        show ((#[] : Array (Option Value))[r.index]?).join = none
        rw [Array.getElem?_empty]
        rfl }

theorem Orderly.after (orderly : Orderly s) {before since : List Act}
    (own : s.AllOwn (before ++ since)) :
    Orderly (s.after before) ∧ (s.after before).AllOwn since := by
  induction before generalizing s with
  | nil => exact ⟨orderly, own⟩
  | cons a as ih => exact ih (orderly.of_step own.1 (orderly.step a)) own.2

/-- A run undoes what is left, except what waits at its end. -/
theorem Orderly.perm_left (orderly : Orderly s) {acts : List Act} (own : s.AllOwn acts) :
    (s.group.pending ++ s.leftAlong acts).Perm
      (s.undoneAlong acts ++ (s.after acts).group.pending) := by
  induction acts generalizing s with
  | nil => exact List.Perm.of_eq (List.append_nil _)
  | cons a as ih =>
      have step := orderly.step a
      have rest := ih (orderly.of_step own.1 step) own.2
      show (s.group.pending ++ (a.left s ++ (a.run s).leftAlong as)).Perm
        (a.undone s ++ (a.run s).undoneAlong as ++ ((a.run s).after as).group.pending)
      calc s.group.pending ++ (a.left s ++ (a.run s).leftAlong as)
        _ = s.group.pending ++ a.left s ++ (a.run s).leftAlong as :=
            (List.append_assoc _ _ _).symm
        List.Perm _ (a.undone s ++ (a.run s).group.pending ++ (a.run s).leftAlong as) :=
            (perm_of_step step).append_right _
        _ = a.undone s ++ ((a.run s).group.pending ++ (a.run s).leftAlong as) :=
            List.append_assoc _ _ _
        List.Perm _ (a.undone s ++
              ((a.run s).undoneAlong as ++ ((a.run s).after as).group.pending)) :=
            rest.append_left _
        _ = _ := (List.append_assoc _ _ _).symm

theorem secure_states_iff (orderly : Orderly s) (secure : Secure s) {acts : List Act}
    (own : s.AllOwn acts) :
    (∀ s' ∈ s.states acts, Secure s') ↔ ¬ s.SomeOverwritten acts := by
  induction acts generalizing s with
  | nil =>
      refine iff_of_true (fun s' mem => ?_) fun no => no
      rw [List.mem_singleton.mp mem]
      exact secure
  | cons a as ih =>
      have step := orderly.step a
      have next := orderly.of_step own.1 step
      have first : a.run s ∈ (a.run s).states as := by
        cases as <;> exact List.mem_cons_self
      show (∀ s' ∈ s :: (a.run s).states as, Secure s') ↔ ¬ (_ ∨ _)
      rw [List.forall_mem_cons, not_or]
      constructor
      · rintro ⟨-, rest⟩
        refine ⟨fun overwritten =>
          not_secure_of_overwrites secure overwritten (rest _ first), ?_⟩
        exact (ih next (rest _ first) own.2).mp rest
      · rintro ⟨calm, later⟩
        have stays := secure.of_step orderly own.1 calm step
        exact ⟨secure, (ih next stays own.2).mpr later⟩

/-- **Owners keep their roots.**  In every run of a group in which the host removes only
roots of its own, every release that a drop leaves is undone once, at once or by the next
who locks the heap, and none is the root of another owner.  In all states every context
has its global object, and every owned root has an object that is there, exactly if no
act overwrites a root of theirs. -/
theorem owners_keep_roots (id : HeapId) (options : GroupOptions) (thread : ThreadId)
    (acts : List Act) (own : (start id options thread : Holdings τ).AllOwn acts) :
    (leftAlong (start id options thread : Holdings τ) acts).Perm
        (undoneAlong (start id options thread : Holdings τ) acts ++
          ((start id options thread : Holdings τ).after acts).group.pending) ∧
      (∀ before a since, acts = before ++ a :: since →
        UndoesInTime ((start id options thread : Holdings τ).after before) a) ∧
      ((∀ s ∈ (start id options thread : Holdings τ).states acts, Secure s) ↔
        ¬ (start id options thread : Holdings τ).SomeOverwritten acts) := by
  have orderly : Orderly (start id options thread : Holdings τ) :=
    orderly_start id options thread
  refine ⟨orderly.perm_left own, ?_, ?_⟩
  · rintro before a since rfl
    exact (orderly.after own).1.undoesInTime a
  · exact secure_states_iff orderly (fun o mem => absurd mem List.not_mem_nil) own

/-- A group with default options. -/
def oneGroup : Holdings Unit := start ⟨0⟩ {} ⟨0⟩

/-- An act that holds no class. -/
def plainly (c : Command) : Act := .command (fun _ => false) c

/-- A context and an owned root are made and dropped, the root while the heap is taken,
and their places are used again. -/
def twoDrops : List Act :=
  [.lock, .newContext (fun _ => false) none, .newRoot .null,
    plainly (.setRoot ⟨1⟩ (.bool true)), .unlock,
    .drop (.context ⟨⟨0⟩, 2, 0⟩ ⟨0⟩),
    .lock, .drop (.root ⟨⟨1⟩, ⟨0⟩⟩), plainly (.addRoot .null), plainly .collect, .unlock,
    .lock, .newContext (fun _ => false) none, plainly (.removeRoot ⟨0⟩), plainly .collect]

/-- There nobody is left without what is his. -/
theorem owners_keep_roots_twoDrops :
    oneGroup.AllOwn twoDrops ∧
      (leftAlong oneGroup twoDrops).Perm (undoneAlong oneGroup twoDrops) ∧
      ∀ s ∈ oneGroup.states twoDrops, Secure s := by
  have own : oneGroup.AllOwn twoDrops :=
    ⟨trivial, trivial, trivial, trivial, trivial, trivial, trivial, trivial, trivial, trivial,
      trivial, trivial, trivial, fun _ => by decide +kernel, trivial, trivial⟩
  obtain ⟨undone, -, secure⟩ := owners_keep_roots ⟨0⟩ {} ⟨0⟩ twoDrops own
  refine ⟨own, ?_, secure.mpr ?_⟩
  · have nothing : (oneGroup.after twoDrops).group.pending = [] := by decide +kernel
    change List.Perm _ (_ ++ (oneGroup.after twoDrops).group.pending) at undone
    rwa [nothing, List.append_nil] at undone
  · -- The one value that is put in place of another is that of an owned root.
    rintro (no | no | no | overwritten | no | no | no | no | no | no | no | no | no | no | no | no)
    case inr.inr.inr.inl =>
      obtain ⟨-, o, mem, place, refused⟩ := overwritten
      have owners : (oneGroup.after (twoDrops.take 3)).owners =
          [.root ⟨⟨1⟩, ⟨0⟩⟩, .context ⟨⟨0⟩, 2, 0⟩ ⟨0⟩] := by decide +kernel
      have mem : o ∈ (oneGroup.after (twoDrops.take 3)).owners := mem
      rw [owners] at mem
      rcases List.mem_cons.mp mem with rfl | mem
      · exact refused rfl
      · rw [List.mem_singleton.mp mem] at place
        cases place
    all_goals exact no

/-- An id that the host removed is that of a context made later, and the host puts
another value there. -/
def overwrittenRoot : List Act :=
  [.lock, plainly (.addRoot .null), plainly (.removeRoot ⟨0⟩), .unlock,
    .lock, .newContext (fun _ => false) none, .unlock,
    .lock, plainly (.setRoot ⟨0⟩ .null), plainly .collect, .unlock]

/-- **A context that loses its global object**: in that run the host removes only what it
added, the context is alive at the end, and its global object is not valid. -/
theorem not_secure_overwrittenRoot :
    oneGroup.AllOwn overwrittenRoot ∧
      .context ⟨⟨0⟩, 2, 0⟩ ⟨0⟩ ∈ (oneGroup.after overwrittenRoot).owners ∧
      (oneGroup.after overwrittenRoot).heap.isValid ⟨⟨0⟩, 2, 0⟩ = false ∧
      ¬ Secure (oneGroup.after overwrittenRoot) := by
  have alive : .context ⟨⟨0⟩, 2, 0⟩ ⟨0⟩ ∈ (oneGroup.after overwrittenRoot).owners := by
    decide +kernel
  have gone : (oneGroup.after overwrittenRoot).heap.isValid ⟨⟨0⟩, 2, 0⟩ = false := by
    decide +kernel
  refine ⟨⟨trivial, trivial, fun _ => by decide +kernel, trivial, trivial, trivial, trivial,
    trivial, trivial, trivial, trivial, trivial⟩, alive, gone, fun secure => ?_⟩
  rw [secure.isValid_global alive] at gone
  cases gone

end HostObjects
