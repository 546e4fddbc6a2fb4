import HostObjects.Proofs.Heap.Build
import HostObjects.Proofs.Heap.Frame
import HostObjects.Proofs.Heap.LostValue

/-!
# Prototype chains

`PrototypeChain h o chain` says that following the prototype links of the heap from `o`
visits the objects of the list and ends at one without a prototype.  Since the links are
a function, an object has one chain at most, and no object is twice on it: from the
second place on, the chain would go on as from the first.  So chains that end cannot
close a cycle, and it is enough to keep them all ending (`Chained`).

Placements prolong chains at the front, and only with prototypes that are there.  A
change of a link walks the chain of the new prototype to its end first, without the
object whose link is changed; what used to lead through that object leads on along the
new chain (`PrototypeChain.relink`).  And a collection that keeps an object keeps its
whole chain, so a slot that is emptied is on no chain that is left.

Instances are allocated with the prototype of their class, which is what building it
answers (`instancePrototype?_prototypeOf`).
-/

namespace HostObjects.Heap

variable {h h' : Heap} {held : ClassId → Bool} {o p q : Handle} {obj changed : HostObject}
  {chain chain' : List Handle}

/-! ### Following links -/

/-- Following prototype links from an object visits the objects of a list, the last of
which has no prototype. -/
inductive PrototypeChain (h : Heap) : Handle → List Handle → Prop
  | last {o : Handle} (found : h.prototype o = .ok none) : PrototypeChain h o [o]
  | link {o p : Handle} {chain : List Handle} (found : h.prototype o = .ok (some p))
      (rest : PrototypeChain h p chain) : PrototypeChain h o (o :: chain)

theorem prototype_eq_ok_iff {link : Option Handle} :
    h.prototype o = .ok link ↔ ∃ obj, h.object o = .ok obj ∧ obj.prototype = link :=
  map_object_eq_ok_iff

theorem isValid_of_prototype {link : Option Handle} (found : h.prototype o = .ok link) :
    h.isValid o = true :=
  isValid_of_map_object found

namespace PrototypeChain

/-- Only objects of the heap are visited. -/
theorem isValid (walk : PrototypeChain h o chain) : ∀ q ∈ chain, h.isValid q = true := by
  induction walk with
  | last found =>
      intro q mem
      rw [List.mem_singleton.mp mem]
      exact isValid_of_prototype found
  | link found _ ih =>
      intro q mem
      rcases List.mem_cons.mp mem with rfl | mem
      · exact isValid_of_prototype found
      · exact ih q mem

theorem isValid_start (walk : PrototypeChain h o chain) : h.isValid o = true := by
  cases walk with
  | last found | link found => exact isValid_of_prototype found

/-- An object has one chain at most. -/
theorem unique (walk : PrototypeChain h o chain) (walk' : PrototypeChain h o chain') :
    chain = chain' := by
  induction walk generalizing chain' with
  | last found =>
      cases walk' with
      | last => rfl
      | link found' => rw [found] at found'; cases found'
  | link found _ ih =>
      cases walk' with
      | last found' => rw [found] at found'; cases found'
      | link found' rest' =>
          rw [found] at found'
          cases found'
          rw [ih rest']

/-- The chain of an object that is visited is the rest of the chain. -/
theorem suffix (walk : PrototypeChain h o chain) (mem : q ∈ chain) :
    ∃ rest, PrototypeChain h q rest ∧ rest <:+ chain := by
  induction walk with
  | last found =>
      rw [List.mem_singleton.mp mem]
      exact ⟨_, .last found, List.suffix_refl _⟩
  | link found rest ih =>
      rcases List.mem_cons.mp mem with rfl | mem
      · exact ⟨_, .link found rest, List.suffix_refl _⟩
      · obtain ⟨later, walk, suffix⟩ := ih mem
        exact ⟨later, walk, suffix.trans (List.suffix_cons _ _)⟩

/-- What an object links to does not lead back to it. -/
theorem not_mem (found : h.prototype o = .ok (some p)) (walk : PrototypeChain h p chain) :
    o ∉ chain := by
  intro mem
  obtain ⟨rest, again, suffix⟩ := walk.suffix mem
  -- The chain of the object would be longer than itself.
  have same := again.unique (.link found walk)
  have le := suffix.length_le
  rw [same, List.length_cons] at le
  exact Nat.not_succ_le_self _ le

/-- **No object is visited twice.** -/
theorem nodup (walk : PrototypeChain h o chain) : chain.Nodup := by
  induction walk with
  | last => exact List.nodup_singleton _
  | link found rest ih => exact List.nodup_cons.mpr ⟨not_mem found rest, ih⟩

/-- A chain depends on the links of the objects on it. -/
theorem congr (walk : PrototypeChain h o chain)
    (same : ∀ q ∈ chain, h'.prototype q = h.prototype q) : PrototypeChain h' o chain := by
  induction walk with
  | last found => exact .last ((same _ List.mem_cons_self).trans found)
  | link found _ ih =>
      refine .link ((same _ List.mem_cons_self).trans found) (ih fun q mem => ?_)
      exact same q (List.mem_cons_of_mem _ mem)

/-- **The chain of an object that stays stays.** -/
theorem collect (walk : PrototypeChain h o chain) (ok : Intact h)
    (alive : Alive held h (.object o)) : PrototypeChain (h.collect held) o chain := by
  induction walk with
  | last found =>
      obtain ⟨obj, there, none⟩ := prototype_eq_ok_iff.mp found
      exact .last (prototype_eq_ok_iff.mpr ⟨obj, object_collect_of_alive ok there alive, none⟩)
  | link found rest ih =>
      obtain ⟨obj, there, some⟩ := prototype_eq_ok_iff.mp found
      have after := object_collect_of_alive ok there alive
      refine .link (prototype_eq_ok_iff.mpr ⟨obj, after, some⟩) (ih ?_)
      exact .prototype alive there some rest.isValid_start

end PrototypeChain

/-! ### Placing and linking -/

theorem prototype_place (empty : FreeIsEmpty h) (obj : HostObject) (q : Handle) :
    (h.place obj).2.prototype q =
      if q = (h.place obj).1 then .ok obj.prototype else h.prototype q := by
  unfold prototype
  rw [object_place empty]
  split <;> rfl

theorem prototype_store (found : h.object o = .ok obj) (new : HostObject) (q : Handle) :
    (h.store o.index new).prototype q =
      if q = o then .ok new.prototype else h.prototype q := by
  unfold prototype
  rw [object_store found]
  split <;> rfl

/-- Chains are where they were after a placement. -/
theorem PrototypeChain.place (walk : PrototypeChain h o chain) (empty : FreeIsEmpty h)
    (obj : HostObject) : PrototypeChain (h.place obj).2 o chain := by
  refine walk.congr fun q mem => ?_
  rw [prototype_place empty, if_neg]
  rintro rfl
  have valid := walk.isValid _ mem
  rw [not_isValid_place_fst empty] at valid
  cases valid

/-- **A change of a link bends the chains through the object**, and they still end, if
the chain of the new prototype did and the object is not on it. -/
theorem PrototypeChain.relink (walk : PrototypeChain h q chain)
    (found : h.object o = .ok obj)
    (free : ∀ p, changed.prototype = some p → ∃ rest, PrototypeChain h p rest ∧ o ∉ rest) :
    ∃ bent, PrototypeChain (h.store o.index changed) q bent := by
  have others : ∀ r, r ≠ o → (h.store o.index changed).prototype r = h.prototype r := by
    intro r other
    rw [prototype_store found, if_neg other]
  have here : ∃ bent, PrototypeChain (h.store o.index changed) o bent := by
    have own : (h.store o.index changed).prototype o = .ok changed.prototype := by
      rw [prototype_store found, if_pos rfl]
    cases link : changed.prototype with
    | none => exact ⟨_, .last (link ▸ own)⟩
    | some p =>
        obtain ⟨rest, walk, notMem⟩ := free p link
        refine ⟨_, .link (link ▸ own) (walk.congr fun r mem => others r ?_)⟩
        rintro rfl
        exact notMem mem
  induction walk with
  | @last q end_ =>
      by_cases same : q = o
      · exact same ▸ here
      · exact ⟨_, .last ((others q same).trans end_)⟩
  | @link q p rest step _ ih =>
      by_cases same : q = o
      · exact same ▸ here
      · obtain ⟨bent, walk⟩ := ih
        exact ⟨_, .link ((others q same).trans step) walk⟩

/-- **The check walks to the end of a chain** on which the object is not. -/
theorem chain_of_checkChain {budget : Nat} {visited : Std.HashSet Handle}
    {start : Option Handle} (walked : h.checkChain o budget visited start = .ok ()) :
    ∀ p, start = some p → ∃ chain, PrototypeChain h p chain ∧ o ∉ chain := by
  rintro p rfl
  induction budget generalizing visited p with
  | zero => cases walked
  | succ budget ih =>
      unfold checkChain at walked
      split at walked
      · cases walked
      · next unvisited =>
          have other : o ≠ p := by
            rintro rfl
            exact unvisited (by rw [beq_self_eq_true, Bool.or_true])
          cases found : h.prototype p with
          | error e =>
              rw [found] at walked
              cases walked
          | ok next =>
              rw [found] at walked
              cases next with
              | none => exact ⟨[p], .last found, fun mem => other (List.mem_singleton.mp mem)⟩
              | some next =>
                  obtain ⟨rest, walk, notMem⟩ := ih next walked
                  refine ⟨p :: rest, .link found walk, fun mem => ?_⟩
                  exact (List.mem_cons.mp mem).elim other notMem

/-! ### All chains end -/

/-- The heap is intact, every chain ends, and the shared prototypes of classes are
there. -/
structure Chained (h : Heap) : Prop where
  intact : Intact h
  ends : ∀ o, h.isValid o = true → ∃ chain, PrototypeChain h o chain
  shared_valid : SharedValid h

namespace Chained

theorem beside (ok : Chained h) (same : SameTable h h')
    (shared : ∀ id o, (id, o) ∈ h'.classPrototypes → h.isValid o = true) : Chained h' where
  intact := ok.intact.congr same
  ends o valid := by
    rw [same.isValid] at valid
    obtain ⟨chain, walk⟩ := ok.ends o valid
    refine ⟨chain, walk.congr fun q _ => ?_⟩
    rw [prototype, prototype, same.object]
  shared_valid id o mem := by
    rw [same.isValid]
    exact shared id o mem

theorem collect (ok : Chained h) (held : ClassId → Bool) : Chained (h.collect held) where
  intact := ok.intact.collect held
  ends o valid := by
    obtain ⟨before, alive⟩ := (isValid_collect_iff ok.intact).mp valid
    obtain ⟨chain, walk⟩ := ok.ends o before
    exact ⟨chain, walk.collect ok.intact alive⟩
  shared_valid := sharedValid_collect ok.intact ok.shared_valid held

/-- An object may be placed whose prototype is there. -/
theorem place (ok : Chained h) (link : ∀ p, obj.prototype = some p → h.isValid p = true) :
    Chained (h.place obj).2 where
  intact := stable_intact.place obj h ok.intact
  ends o valid := by
    have empty := ok.intact.freeIsEmpty
    rw [isValid_place empty, Bool.or_eq_true, beq_iff_eq] at valid
    rcases valid with rfl | valid
    · have own : (h.place obj).2.prototype (h.place obj).1 = .ok obj.prototype := by
        rw [prototype_place empty, if_pos rfl]
      cases start : obj.prototype with
      | none => exact ⟨_, .last (start ▸ own)⟩
      | some p =>
          obtain ⟨chain, walk⟩ := ok.ends p (link p start)
          exact ⟨_, .link (start ▸ own) (walk.place empty obj)⟩
    · obtain ⟨chain, walk⟩ := ok.ends o valid
      exact ⟨chain, walk.place empty obj⟩
  shared_valid := sharedValid_place ok.intact ok.shared_valid obj

theorem relink (ok : Chained h) (found : h.object o = .ok obj)
    (free : ∀ p, changed.prototype = some p → ∃ rest, PrototypeChain h p rest ∧ o ∉ rest) :
    Chained (h.store o.index changed) where
  intact := stable_intact.store o obj changed h found ok.intact
  ends q valid := by
    rw [isValid_store found] at valid
    obtain ⟨chain, walk⟩ := ok.ends q valid
    exact walk.relink found free
  shared_valid := sharedValid_store ok.shared_valid found changed

/-- A store that leaves the link alone bends nothing. -/
theorem store (ok : Chained h) (found : h.object o = .ok obj)
    (same : changed.prototype = obj.prototype) : Chained (h.store o.index changed) := by
  refine ok.relink found fun p link => ?_
  have linked : h.prototype o = .ok (some p) :=
    prototype_eq_ok_iff.mpr ⟨obj, found, same.symm.trans link⟩
  obtain ⟨chain, walk⟩ := ok.ends o (isValid_of_object found)
  cases walk with
  | last found' => rw [linked] at found'; cases found'
  | link found' rest =>
      rw [linked] at found'
      cases found'
      exact ⟨_, rest, PrototypeChain.not_mem linked rest⟩

end Chained

theorem chained_new (id : HeapId) (limits : Limits) (mode : CollectionMode) :
    Chained (new id limits mode) where
  intact := intact_new id limits mode
  ends o valid := by
    have first : PrototypeChain (new id limits mode) ⟨id, objectPrototypeIndex, 0⟩
        [⟨id, objectPrototypeIndex, 0⟩] :=
      .last (prototype_eq_ok_iff.mpr ⟨.ordinary none,
        object_eq_ok_iff.mpr ⟨rfl, _, rfl, rfl, rfl⟩, rfl⟩)
    obtain ⟨own, s, slot, generation, -⟩ := isValid_iff_slot.mp valid
    obtain ⟨heap, index, g⟩ := o
    cases own
    -- There are two slots, and the second object links to the first.
    rcases index with _ | _ | index
    · cases slot
      cases generation
      exact ⟨_, first⟩
    · cases slot
      cases generation
      exact ⟨_, .link (prototype_eq_ok_iff.mpr
        ⟨.ordinary (some ⟨id, objectPrototypeIndex, 0⟩),
          object_eq_ok_iff.mpr ⟨rfl, _, rfl, rfl, rfl⟩, rfl⟩) first⟩
    · simp [new, intrinsics] at slot
  shared_valid := fun _ _ mem => absurd mem List.not_mem_nil

/-! ### Operations -/

/-- An object may be placed that starts with an intrinsic prototype. -/
theorem Chained.place_of_links (ok : Chained h) (links : h.LinksToIntrinsic obj) :
    Chained (h.place obj).2 := by
  refine ok.place fun p link => ?_
  rcases links with intrinsic | intrinsic
  · rw [intrinsic, Option.some.injEq] at link
    exact link ▸ ok.intact.objectPrototype_valid
  · rw [intrinsic, Option.some.injEq] at link
    exact link ▸ ok.intact.functionPrototype_valid

theorem quiet_chained (held : ClassId → Bool) : Quiet held fun _ => Chained where
  collect _ _ ok := ok.collect held
  schedule _ _ ok := ok.beside ⟨rfl, rfl, rfl, rfl, rfl⟩ ok.shared_valid
  place _ _ _ _ links ok := ok.place_of_links links
  store _ _ _ _ _ found _ _ same ok := ok.store found same
  push _ _ _ ok := ok.beside ⟨rfl, rfl, rfl, rfl, rfl⟩ ok.shared_valid
  pop _ _ _ ok := ok.beside ⟨rfl, rfl, rfl, rfl, rfl⟩ ok.shared_valid

theorem preserves_chained_setPrototype (o : Handle) (p : Option Handle) :
    Preserves Chained (setPrototype o p) := by
  unfold setPrototype
  refine (preserves_reading _).bind fun _ => Meets.bind (meets_reading _) fun _ => ?_
  refine Meets.of_state fun h ⟨ok, walked⟩ => ?_
  unfold Heap.change
  cases found : h.object o with
  | error e => exact ok
  | ok obj =>
      refine ok.relink found fun q link => ?_
      split at walked
      · cases walked
      · exact chain_of_checkChain walked q link

/-- An object may be allocated whose prototype is alive: making room spares it. -/
theorem meets_alloc_chained (held : ClassId → Bool) (obj : HostObject) :
    Meets (fun h => Chained h ∧ ∀ p, obj.prototype = some p → Alive held h (.object p))
      (alloc held obj) (fun o h => Chained h ∧ h.isValid o = true) Chained := by
  have room : Meets
      (fun h => Chained h ∧ ∀ p, obj.prototype = some p → Alive held h (.object p))
      (makeRoom held obj.size)
      (fun _ h => Chained h ∧ ∀ p, obj.prototype = some p → h.isValid p = true)
      Chained := by
    rintro h ⟨ok, alive⟩
    have keep := ((quiet_chained held).makeRoom #[] obj.size).state ok
    refine ⟨fun _ h' run => ?_, fun e h' run => ?_⟩
    · have stays : ∀ p, obj.prototype = some p →
          (makeRoom held obj.size h).2.isValid p = true :=
        fun p link => (alive p link).isValid_makeRoom ok.intact _
      rw [run] at keep stays
      exact ⟨keep, stays⟩
    · rwa [run] at keep
  refine Meets.bind room fun _ h ⟨ok, link⟩ => ⟨fun o h' run => ?_, fun e h' run => ?_⟩
  · cases run
    exact ⟨ok.place link, isValid_place_fst ok.intact.freeIsEmpty obj⟩
  · cases run

/-- A prototype stays while functions are added to it. -/
theorem meets_populate_chained (held : ClassId → Bool) (proto : Handle)
    (entries : List StaticFunction) :
    Meets (fun h => Chained h ∧ h.isValid proto = true)
      (rooting (.object proto) (populate held proto entries))
      (fun _ h => Chained h ∧ h.isValid proto = true)
      (fun h => Chained h ∧ h.isValid proto = true) := by
  refine Meets.of_state fun h ⟨ok, valid⟩ => ⟨?_, ?_⟩
  · have filled := (quiet_chained held).populate #[] proto entries
    exact ((quiet_chained held).lasting.rooting (S := #[]) filled).state ok
  · -- Whatever is rooted at the start is there at the end.
    have start : Guards (h.pushRoot (.object proto)) #[] (h.pushRoot (.object proto)) :=
      ⟨ok.intact.congr ⟨rfl, rfl, rfl, rfl, rfl⟩, Array.append_empty.symm,
        fun _ _ valid => valid⟩
    have guards := (((steady_guards (h.pushRoot (.object proto))).classless.quiet
      held).populate #[] proto entries).state start
    exact guards.isValid proto (by simp [Heap.pushRoot]) valid

/-- The prototype of a class may be built on one that is alive. -/
theorem meets_buildPrototype_chained {d : Descriptor} (inUse : held d.id = true)
    (parent : Handle) :
    Meets (fun h => Chained h ∧ Alive held h (.object parent))
      (buildPrototype held d parent) (fun o h => Chained h ∧ Alive held h (.object o))
      Chained := by
  have linked : Meets (fun h => Chained h ∧ Alive held h (.object parent))
      (alloc held (.ordinary (some parent)))
      (fun proto h => Chained h ∧ h.isValid proto = true) Chained := by
    refine (meets_alloc_chained held _).imp ?_ (fun _ _ post => post) fun _ ok => ok
    rintro h ⟨ok, alive⟩
    refine ⟨ok, fun p link => ?_⟩
    cases link
    exact alive
  refine Meets.bind linked fun proto => ?_
  have filled := (meets_populate_chained held proto d.firstFunctions).imp
    (fun _ both => both) (fun _ _ both => both) fun _ both => both.1
  refine Meets.bind filled fun _ => ?_
  -- The prototype is recorded where it is still there.
  have recorded : Meets (fun h => Chained h ∧ h.isValid proto = true)
      (modify (recordPrototype d.id proto) : HeapM Unit)
      (fun _ h => Chained h ∧ h.classPrototype? d.id = some proto) Chained := by
    refine Meets.modify ?_
    rintro h ⟨ok, valid⟩
    refine ⟨ok.beside ⟨rfl, rfl, rfl, rfl, rfl⟩ fun id o mem => ?_,
      classPrototype?_recordPrototype h d.id proto⟩
    rcases List.mem_cons.mp mem with eq | mem
    · cases eq
      exact valid
    · exact ok.shared_valid id o (List.mem_filter.mp mem).1
  refine Meets.bind recorded fun _ => Meets.pure ?_
  rintro h ⟨ok, cached⟩
  exact ⟨ok, alive_of_classPrototype? ok.shared_valid cached inUse⟩

/-- **Class prototypes link to what is there**, and are alive when they are answered. -/
theorem meets_prototypeOf_chained {chain : List Descriptor}
    (inUse : ∀ d ∈ chain, held d.id = true) :
    Meets Chained (prototypeOf held chain)
      (fun o h => Chained h ∧ Alive held h (.object o)) Chained :=
  meets_prototypeOf (A := fun o h => Alive held h (.object o))
    (fun _ _ => .objectPrototype)
    (fun d mem _ _ ok cached =>
      alive_of_classPrototype? ok.shared_valid cached (inUse d mem))
    fun d mem _ _ _ parent => meets_buildPrototype_chained (inUse d mem) parent

/-- A prototype that is built is recorded. -/
theorem classPrototype?_buildPrototype {d : Descriptor} {parent proto : Handle}
    (run : buildPrototype held d parent h = (.ok proto, h')) :
    h'.classPrototype? d.id = some proto := by
  -- Whatever comes before, recording comes last.
  have any : ∀ {α : Type} {P : Heap → Prop} (act : HeapM α),
      Meets P act (fun _ _ => True) fun _ => True :=
    fun act => Meets.of_state fun _ _ => trivial
  have last : Meets (fun _ => True) (buildPrototype held d parent)
      (fun proto h => h.classPrototype? d.id = some proto) fun _ => True := by
    refine Meets.bind (any _) fun proto => Meets.bind (any _) fun _ => ?_
    refine Meets.bind (Q := fun _ h => h.classPrototype? d.id = some proto) ?_
      fun _ => Meets.pure fun _ cached => cached
    refine fun h _ => ⟨fun _ h' run => ?_, fun _ _ _ => trivial⟩
    cases run
    exact classPrototype?_recordPrototype h d.id proto
  exact (last h trivial).1 proto h' run

/-- A prototype that was missing was built when it is answered. -/
theorem build_of_prototypeOf {d : Descriptor} {ancestors : List Descriptor} {proto : Handle}
    (automatic : d.automatic = true) (missing : h.classPrototype? d.id = none)
    (run : prototypeOf held (d :: ancestors) h = (.ok proto, h')) :
    ∃ parent between, prototypeOf held ancestors h = (.ok parent, between) ∧
      buildPrototype held d parent between = (.ok proto, h') := by
  rw [prototypeOf_missing automatic missing] at run
  exact of_bind_ok run

/-- The prototype that is answered for a class is the one that its instances may get. -/
theorem instancePrototype?_prototypeOf {c : Class} {proto : Handle}
    (run : prototypeOf held c.chain h = (.ok proto, h')) :
    h'.instancePrototype? c = some proto := by
  unfold instancePrototype?
  cases automatic : c.own.automatic with
  | false =>
      rw [Class.chain, prototypeOf_plain automatic] at run
      cases run
      rfl
  | true =>
      rw [if_pos rfl]
      cases there : h.classPrototype? c.own.id with
      | some proto =>
          rw [Class.chain, prototypeOf_cached automatic there] at run
          cases run
          exact there
      | none =>
          obtain ⟨parent, between, -, built⟩ := build_of_prototypeOf automatic there run
          exact classPrototype?_buildPrototype built

/-- **Every command keeps all chains ending.** -/
theorem Chained.run (ok : Chained h) {c : Command} (allowed : c.Allowed held h) :
    Chained (c.run held h) := by
  have quiet := quiet_chained held
  by_cases hb : c.isBeside = true
  · obtain ⟨same, -, shared⟩ := c.run_beside held h hb
    exact ok.beside same (by rw [shared]; exact ok.shared_valid)
  · cases c with
    | collect => exact ok.collect held
    | allocPlain => exact (quiet.allocPlain #[]).state ok
    | allocFunction name call => exact (quiet.allocFunction #[] name call).state ok
    | allocConstructor made construct =>
        exact quiet.alloc_of_links #[] (fun _ links ok => ok.place_of_links links) (Or.inr rfl) ok
    | prototypeOf c =>
        refine Meets.state ((meets_prototypeOf_chained allowed).imp (fun _ ok => ok)
          (fun _ _ post => post.1) fun _ ok => ok) ok
    | allocInstance c data proto =>
        obtain ⟨inUse, start⟩ := allowed
        have alive := alive_of_instancePrototype? ok.shared_valid inUse start
        refine Meets.state ((meets_alloc_chained held _).imp (fun _ both => both)
          (fun _ _ post => post.1) fun _ ok => ok) ⟨ok, fun p link => ?_⟩
        cases link
        exact alive
    | defineOwn o p => exact (quiet.defineOwn #[] o p).state ok
    | putOwn o p => exact (quiet.putOwn #[] o p).state ok
    | deleteOwn o name => exact (quiet.deleteOwn #[] o name).state ok
    | setPrototype o p => exact (preserves_chained_setPrototype o p).state ok
    | setPrivate o data => exact (quiet.setPrivate #[] o data).state ok
    | settle => exact ok.beside ⟨rfl, rfl, rfl, rfl, rfl⟩ ok.shared_valid
    | _ => exact absurd rfl hb

theorem chained_states (ok : Chained h) {turns : List Turn}
    (allowed : AllAllowed h turns) : ∀ h' ∈ states h turns, Chained h' := by
  induction turns generalizing h with
  | nil =>
      intro h' mem
      rw [List.mem_singleton.mp mem]
      exact ok
  | cons t ts ih =>
      intro h' mem
      rcases List.mem_cons.mp mem with rfl | mem
      · exact ok
      · exact ih (ok.run allowed.1) allowed.2 h' mem

/-- **Prototype chains end.**  In every state of a run, following prototype links from
an object visits objects of the heap only, none of them twice, and ends at an object
without a prototype. -/
theorem prototype_chains_end (id : HeapId) (limits : Limits) (mode : CollectionMode)
    (turns : List Turn) (allowed : AllAllowed (new id limits mode) turns) :
    ∀ h ∈ states (new id limits mode) turns, ∀ o, h.isValid o = true →
      ∃ chain, PrototypeChain h o chain ∧ chain.Nodup ∧
        ∀ p ∈ chain, p.heap = h.id ∧ h.isValid p = true := by
  intro h mem o valid
  obtain ⟨chain, walk⟩ := (chained_states (chained_new id limits mode) allowed h mem).ends o valid
  refine ⟨chain, walk, walk.nodup, fun p mem => ?_⟩
  have there := walk.isValid p mem
  exact ⟨(isValid_iff_slot.mp there).1, there⟩

/-- A class with a parent. -/
def derived : Class :=
  ⟨⟨⟨1⟩, 0, Text.ofString "Derived", true, [], [], fun _ => none⟩,
    [⟨⟨0⟩, 0, Text.ofString "Base", true, [], [], fun _ => none⟩]⟩

/-- A slot is emptied and used again.  Then a plain object is linked to an instance, the
prototype of the class to the object in that slot, and that object back to the plain one,
which is refused. -/
def relinked : List Turn :=
  [.prototypeOf derived, .allocInstance derived none ⟨⟨0⟩, 3, 0⟩, .allocPlain,
    .addRoot (.object ⟨⟨0⟩, 4, 0⟩), .addRoot (.object ⟨⟨0⟩, 5, 0⟩),
    .allocPlain, .collect, .allocPlain,
    .setPrototype ⟨⟨0⟩, 5, 0⟩ (some ⟨⟨0⟩, 4, 0⟩),
    .setPrototype ⟨⟨0⟩, 3, 0⟩ (some ⟨⟨0⟩, 6, 1⟩),
    .setPrototype ⟨⟨0⟩, 6, 1⟩ (some ⟨⟨0⟩, 5, 0⟩)].map fun c => ⟨fun _ => true, c⟩

/-- There the chains of both objects end. -/
theorem prototype_chains_end_relinked :
    AllAllowed (new ⟨0⟩ .standard .synchronous) relinked ∧
      ∀ o ∈ [(⟨⟨0⟩, 5, 0⟩ : Handle), ⟨⟨0⟩, 6, 1⟩],
        ∃ chain, PrototypeChain ((new ⟨0⟩ .standard .synchronous).after relinked) o chain ∧
          chain.Nodup := by
  have allowed : AllAllowed (new ⟨0⟩ .standard .synchronous) relinked :=
    ⟨fun _ _ => rfl, ⟨fun _ _ => rfl, by decide +kernel⟩, trivial, trivial, trivial, trivial,
      trivial, trivial, trivial, trivial, trivial, trivial⟩
  have last : (new ⟨0⟩ .standard .synchronous).after relinked ∈
      states (new ⟨0⟩ .standard .synchronous) relinked := by
    iterate 11 apply List.mem_cons_of_mem
    exact List.mem_cons_self
  refine ⟨allowed, fun o mem => ?_⟩
  have start : ((new ⟨0⟩ .standard .synchronous).after (relinked.take 8)).isValid o = true := by
    have both : ∀ o ∈ [(⟨⟨0⟩, 5, 0⟩ : Handle), ⟨⟨0⟩, 6, 1⟩],
        ((new ⟨0⟩ .standard .synchronous).after (relinked.take 8)).isValid o = true := by
      decide +kernel
    exact both o mem
  -- Links come and go without any object doing so.
  have stays : ∀ q p, Preserves (fun h => h.isValid o = true) (setPrototype q p) :=
    fun q p => preserves_setPrototype
      (fun _ _ _ _ found _ _ valid => by rwa [isValid_store found]) q p
  have valid : ((new ⟨0⟩ .standard .synchronous).after relinked).isValid o = true :=
    (stays _ _).state ((stays _ _).state ((stays _ _).state start))
  obtain ⟨chain, walk, nodup, -⟩ := prototype_chains_end ⟨0⟩ .standard .synchronous relinked
    allowed _ last o valid
  exact ⟨chain, walk, nodup⟩

end HostObjects.Heap
