import HostObjects.Proofs.Heap.Write

/-!
# What a deletion does to a heap

A deletion that is not refused takes the first property of the name out of the list of an object.
That the name is gone then (`AfterDelete`) depends on what the list never has: two properties of
one name (`Heap.Unrepeated`).  Nothing checks this; it lasts because a property is added only
where the name is missing, so it is an invariant of all commands (`Reachable.unrepeated`).
-/

namespace HostObjects

/-! ### Lists without repeated names -/

namespace Property

variable {ps : List Property} {new : Property} {n : Text}

/-- No two properties of the list have one name. -/
def Unrepeated (ps : List Property) : Prop := (ps.map name).Nodup

theorem find?_of_mem {p : Property} (unrepeated : Unrepeated ps) (mem : p ∈ ps) :
    find? ps p.name = some p := by
  induction ps with
  | nil => cases mem
  | cons q ps ih =>
      obtain ⟨once, rest⟩ := List.nodup_cons.mp unrepeated
      rcases List.mem_cons.mp mem with rfl | mem
      · simp [find?]
      · have differs : (q.name == p.name) = false := by
          refine beq_eq_false_iff_ne.mpr fun same => once ?_
          exact List.mem_map.mpr ⟨p, mem, same.symm⟩
        have inside := ih rest mem
        unfold find? at inside ⊢
        rw [List.find?_cons, differs]
        exact inside

/-- The list with a property in the place of the one of its name, or at the end. -/
def define (ps : List Property) (new : Property) : List Property :=
  if (find? ps new.name).isSome then update ps new else ps ++ [new]

theorem define_of_there {old : Property} (there : find? ps new.name = some old) :
    define ps new = update ps new := by
  rw [define, there, Option.isSome_some, if_pos rfl]

theorem define_of_missing (missing : find? ps new.name = none) :
    define ps new = ps ++ [new] := by
  rw [define, missing, Option.isSome_none, if_neg Bool.false_ne_true]

theorem map_name_update (ps : List Property) (new : Property) :
    (update ps new).map name = ps.map name := by
  induction ps with
  | nil => rfl
  | cons p ps ih =>
      unfold update
      split
      · next same => rw [List.map_cons, List.map_cons, same]
      · rw [List.map_cons, List.map_cons, ih]

theorem Unrepeated.define (unrepeated : Unrepeated ps) (new : Property) :
    Unrepeated (define ps new) := by
  unfold Unrepeated at *
  cases there : find? ps new.name with
  | some old => rwa [define_of_there there, map_name_update]
  | none =>
      have absent : new.name ∉ ps.map Property.name := by
        intro mem
        obtain ⟨p, mem, same⟩ := List.mem_map.mp mem
        exact List.find?_eq_none.mp there p mem (beq_iff_eq.mpr same)
      rw [define_of_missing there, List.map_append]
      exact List.Nodup.append unrepeated (List.nodup_singleton _)
        (List.disjoint_singleton.mpr absent)

theorem remove_sublist (ps : List Property) (n : Text) : (remove ps n).Sublist ps := by
  induction ps with
  | nil => exact .slnil
  | cons p ps ih =>
      unfold remove
      split
      · exact List.sublist_cons_self p ps
      · exact ih.cons_cons p

theorem Unrepeated.remove (unrepeated : Unrepeated ps) (n : Text) : Unrepeated (remove ps n) :=
  List.Nodup.sublist ((remove_sublist ps n).map name) unrepeated

theorem remove_of_missing (missing : find? ps n = none) : remove ps n = ps := by
  induction ps with
  | nil => rfl
  | cons p ps ih =>
      unfold find? at *
      rw [List.find?_cons] at missing
      split at missing
      · cases missing
      · next other =>
          have differs : p.name ≠ n := by simpa using other
          rw [remove, if_neg differs, ih missing]

theorem others_remove (ps : List Property) (n : Text) : others (remove ps n) n = others ps n := by
  induction ps with
  | nil => rfl
  | cons p ps ih =>
      unfold remove
      split
      · next same => simp [others, same]
      · unfold others at ih ⊢
        rw [List.filter_cons, List.filter_cons, ih]

/-- The first property of the name was the only one. -/
theorem find?_remove (unrepeated : Unrepeated ps) (n : Text) : find? (remove ps n) n = none := by
  induction ps with
  | nil => rfl
  | cons p ps ih =>
      obtain ⟨once, rest⟩ := List.nodup_cons.mp unrepeated
      unfold remove
      split
      · next same =>
          refine List.find?_eq_none.mpr fun q mem named => ?_
          exact once (List.mem_map.mpr ⟨q, mem, (beq_iff_eq.mp named).trans same.symm⟩)
      · next other =>
          have differs : (p.name == n) = false := by simpa using other
          have inside := ih rest
          unfold find? at inside ⊢
          rw [List.find?_cons, differs]
          exact inside

end Property

namespace Heap

variable {h h' : Heap} {held : ClassId → Bool} {o : Handle} {name : Text} {p : Property}
  {obj stored : HostObject}

/-! ### What writes store -/

/-- A property that is defined is stored where there is room. -/
theorem of_defineOwn_ok (run : defineOwn held o p h = (.ok (), h')) :
    ∃ roomy obj, MadeRoom held h roomy ∧ roomy.object o = .ok obj ∧
      h' = roomy.store o.index { obj with properties := Property.define obj.properties p } := by
  unfold defineOwn at run
  obtain ⟨⟨⟩, -, run⟩ := of_reading_bind_ok run
  obtain ⟨old, own, run⟩ := of_reading_bind_ok run
  cases old with
  | some old =>
      obtain ⟨obj, found, rfl⟩ := of_change_ok run
      rw [ownProperty_of_object found] at own
      refine ⟨h, obj, Or.inl rfl, found, ?_⟩
      rw [Property.define_of_there (Except.ok.inj own)]
      rfl
  | none =>
      obtain ⟨⟨⟩, roomy, room, run⟩ := of_bind_ok run
      obtain ⟨obj, found, rfl⟩ := of_change_ok run
      have state := makeRoom_state held HostObject.propertyBytes h
      rw [room] at state
      rw [ownProperty_of_object (MadeRoom.object state found)] at own
      refine ⟨roomy, obj, state, found, ?_⟩
      rw [Property.define_of_missing (Except.ok.inj own)]
      rfl

/-- A property that is put is stored where there is room, unless the one that is there is
read-only.  It has the attributes that the write leaves. -/
theorem of_putOwn_stores {landed : Bool} (run : putOwn held o p h = (.ok landed, h')) :
    (h.isReadOnly o p.name = true ∧ landed = false ∧ h' = h) ∨
      h.isReadOnly o p.name = false ∧ landed = true ∧
        ∃ old roomy obj, h.ownProperty o p.name = .ok old ∧ MadeRoom held h roomy ∧
          roomy.object o = .ok obj ∧
          h' = roomy.store o.index
            { obj with properties := Property.define obj.properties (writtenOver p old) } := by
  unfold putOwn at run
  obtain ⟨⟨⟩, -, run⟩ := of_reading_bind_ok run
  obtain ⟨old, own, run⟩ := of_reading_bind_ok run
  unfold isReadOnly
  rw [own]
  cases old with
  | none =>
      obtain ⟨⟨⟩, t, defined, run⟩ := of_bind_ok run
      cases run
      obtain ⟨roomy, obj, room, found, rfl⟩ := of_defineOwn_ok defined
      exact Or.inr ⟨rfl, rfl, none, roomy, obj, rfl, room, found, rfl⟩
  | some old =>
      dsimp only at run ⊢
      cases readOnly : old.attributes.readOnly with
      | true =>
          rw [if_pos readOnly] at run
          cases run
          exact Or.inl ⟨rfl, rfl, rfl⟩
      | false =>
          rw [if_neg (by simp [readOnly])] at run
          obtain ⟨⟨⟩, t, changed, run⟩ := of_bind_ok run
          obtain ⟨obj, found, rfl⟩ := of_change_ok changed
          cases run
          rw [ownProperty_of_object found] at own
          have there : Property.find? obj.properties (writtenOver p (some old)).name = some old :=
            Except.ok.inj own
          refine Or.inr ⟨rfl, rfl, some old, h, obj, rfl, Or.inl rfl, found, ?_⟩
          rw [Property.define_of_there there]
          rfl

/-- What a deletion finds decides what it does. -/
theorem deleteOwn_of_object (found : h.object o = .ok obj) (name : Text) :
    deleteOwn o name h =
      match Property.find? obj.properties name with
      | none => (.ok true, h)
      | some old =>
        if old.attributes.permanent then (.ok false, h)
        else (.ok true, h.store o.index (withRemoved name obj)) := by
  unfold deleteOwn
  rw [reading_bind_of_ok (ownProperty_of_object found name)]
  cases Property.find? obj.properties name with
  | none => rfl
  | some old =>
      dsimp only
      split
      · rfl
      · rw [bind_apply, change, found]
        rfl

/-- A deletion that is refused leaves the heap. -/
theorem eq_of_deleteOwn_refused (run : deleteOwn o name h = (.ok false, h')) : h' = h := by
  unfold deleteOwn at run
  obtain ⟨old, -, run⟩ := of_reading_bind_ok run
  cases old with
  | none => cases run
  | some old =>
      dsimp only at run
      split at run
      · cases run
        rfl
      · obtain ⟨⟨⟩, t, -, run⟩ := of_bind_ok run
        cases run

/-! ### Names are not repeated -/

/-- No object has two properties of one name. -/
def Unrepeated (h : Heap) : Prop :=
  ∀ o obj, h.object o = .ok obj → Property.Unrepeated obj.properties

namespace Unrepeated

theorem of_part (unrepeated : h.Unrepeated)
    (part : ∀ o obj, h'.object o = .ok obj → h.object o = .ok obj) : h'.Unrepeated :=
  fun o obj found => unrepeated o obj (part o obj found)

theorem congr (unrepeated : h.Unrepeated) (same : h'.object = h.object) : h'.Unrepeated :=
  unrepeated.of_part fun o obj found => by rwa [same] at found

theorem madeRoom (unrepeated : h.Unrepeated) (room : MadeRoom held h h') : h'.Unrepeated :=
  unrepeated.of_part fun _ _ => room.object

theorem place (unrepeated : h.Unrepeated) (empty : FreeIsEmpty h)
    (bare : Property.Unrepeated obj.properties) : (h.place obj).2.Unrepeated := by
  intro q other found
  rw [object_place empty] at found
  split at found
  · cases found
    exact bare
  · exact unrepeated q other found

theorem store (unrepeated : h.Unrepeated) (found : h.object o = .ok obj)
    (bare : Property.Unrepeated stored.properties) : (h.store o.index stored).Unrepeated := by
  intro q other there
  rw [object_store found] at there
  split at there
  · cases there
    exact bare
  · exact unrepeated q other there

/-- An object keeps its names apart whatever is defined on it. -/
theorem store_define (unrepeated : h.Unrepeated) (found : h.object o = .ok obj) (p : Property) :
    (h.store o.index
      { obj with properties := Property.define obj.properties p }).Unrepeated :=
  unrepeated.store found ((unrepeated o obj found).define p)

/-- A failed attempt leaves the heap or a collection of it. -/
theorem swept (unrepeated : h.Unrepeated) (swept : Swept held h h') : h'.Unrepeated := by
  rcases swept with rfl | rfl
  · exact unrepeated
  · exact unrepeated.madeRoom (Or.inr (Or.inr rfl))

end Unrepeated

/-- Names stay apart if a change of one object keeps them apart. -/
theorem preserves_change_unrepeated {f : HostObject → HostObject}
    (keep : ∀ obj, Property.Unrepeated obj.properties → Property.Unrepeated (f obj).properties) :
    Preserves Unrepeated (change o f) := by
  refine Preserves.of_state fun h unrepeated => ?_
  unfold change
  cases found : h.object o with
  | error e => exact unrepeated
  | ok obj => exact unrepeated.store found (keep obj (unrepeated o obj found))

theorem preserves_defineOwn_unrepeated (o : Handle) (p : Property) :
    Preserves Unrepeated (defineOwn held o p) := by
  refine Preserves.of_state fun h unrepeated => ?_
  rcases run : defineOwn held o p h with ⟨e | ⟨⟩, h'⟩
  · exact unrepeated.swept ((clean_defineOwn o p h rfl).2 e h' run)
  · obtain ⟨roomy, obj, room, found, rfl⟩ := of_defineOwn_ok run
    exact (unrepeated.madeRoom room).store_define found p

theorem preserves_putOwn_unrepeated (o : Handle) (p : Property) :
    Preserves Unrepeated (putOwn held o p) := by
  refine Preserves.of_state fun h unrepeated => ?_
  rcases run : putOwn held o p h with ⟨e | landed, h'⟩
  · exact unrepeated.swept ((clean_putOwn o p h rfl).2 e h' run)
  · rcases of_putOwn_stores run with ⟨-, -, rfl⟩ | ⟨-, -, old, roomy, obj, -, room, found, rfl⟩
    · exact unrepeated
    · exact (unrepeated.madeRoom room).store_define found _

theorem preserves_deleteOwn_unrepeated (o : Handle) (name : Text) :
    Preserves Unrepeated (deleteOwn o name) := by
  refine (preserves_reading _).bind fun old => ?_
  cases old with
  | none => exact Preserves.pure _
  | some old =>
      refine Preserves.ite (fun _ => Preserves.pure _) fun _ => ?_
      exact (preserves_change_unrepeated fun obj apart => apart.remove name).bind fun _ =>
        Preserves.pure _

/-- An object without properties may be allocated. -/
theorem preserves_alloc_unrepeated (bare : obj.properties = []) :
    Preserves (fun h => Intact h ∧ h.Unrepeated) (alloc held obj) := by
  have room : Preserves Unrepeated (makeRoom held obj.size) := by
    refine Preserves.of_state fun h unrepeated => ?_
    exact unrepeated.madeRoom (makeRoom_state held obj.size h)
  have intact := (stable_intact.steady.classless.quiet held).makeRoom #[] obj.size
  refine (intact.and room).bind fun _ => Preserves.modifyGet fun h ⟨ok, unrepeated⟩ => ?_
  refine ⟨stable_intact.place obj h ok, unrepeated.place ok.freeIsEmpty ?_⟩
  rw [bare]
  exact List.nodup_nil

/-- Names stay apart while functions and prototypes are made. -/
theorem lasting_unrepeated (held : ClassId → Bool) :
    Lasting held fun _ h => Intact h ∧ h.Unrepeated where
  alloc _ _ _ _ hs := (preserves_alloc_unrepeated rfl).state hs
  defineOwn _ o p :=
    ((stable_intact.steady.classless.defineOwn held #[] o p)).and
      (preserves_defineOwn_unrepeated o p)
  push _ _ _ hs := ⟨hs.1.congr ⟨rfl, rfl, rfl, rfl, rfl⟩, hs.2.congr rfl⟩
  pop _ _ _ hs := ⟨hs.1.congr ⟨rfl, rfl, rfl, rfl, rfl⟩, hs.2.congr rfl⟩

/-- **Every command keeps names apart.** -/
theorem Unrepeated.run (unrepeated : h.Unrepeated) (ok : Intact h) (held : ClassId → Bool)
    (c : Command) : (c.run held h).Unrepeated := by
  have lasting := lasting_unrepeated held
  by_cases beside : c.isBeside = true
  · exact unrepeated.congr (c.run_beside held h beside).1.object
  · cases c with
    | collect => exact unrepeated.madeRoom (Or.inr (Or.inr rfl))
    | allocPlain =>
        rw [Command.run, allocPlain_apply]
        exact ((preserves_alloc_unrepeated rfl).state ⟨ok, unrepeated⟩).2
    | allocFunction name call =>
        exact ((lasting.allocFunction #[] name call).state ⟨ok, unrepeated⟩).2
    | allocConstructor made construct =>
        exact ((preserves_alloc_unrepeated rfl).state ⟨ok, unrepeated⟩).2
    | prototypeOf c =>
        refine ((lasting.prototypeOf #[] (fun _ => preserves_alloc_unrepeated rfl) ?_
          c.chain).state ⟨ok, unrepeated⟩).2
        exact fun _ _ _ hs => ⟨hs.1.congr ⟨rfl, rfl, rfl, rfl, rfl⟩, hs.2.congr rfl⟩
    | allocInstance c data proto =>
        exact ((preserves_alloc_unrepeated rfl).state ⟨ok, unrepeated⟩).2
    | defineOwn o p => exact (preserves_defineOwn_unrepeated o p).state unrepeated
    | putOwn o p => exact (preserves_putOwn_unrepeated o p).state unrepeated
    | deleteOwn o name => exact (preserves_deleteOwn_unrepeated o name).state unrepeated
    | setPrototype o p =>
        refine Preserves.state ?_ unrepeated
        exact (preserves_reading _).bind fun _ => (preserves_reading _).bind fun _ =>
          preserves_change_unrepeated fun _ apart => apart
    | setPrivate o data =>
        have keep : Preserves Unrepeated (Heap.setPrivate o data) :=
          preserves_change_unrepeated fun _ apart => apart
        exact keep.state unrepeated
    | settle => exact unrepeated.congr rfl
    | _ => exact absurd rfl beside

theorem unrepeated_new (id : HeapId) (limits : Limits) (mode : CollectionMode) :
    (new id limits mode).Unrepeated := by
  intro o obj found
  obtain ⟨-, s, slot, -, occupied⟩ := object_eq_ok_iff.mp found
  have bare : ∀ s ∈ (new id limits mode).slots, ∀ obj ∈ s.occupant,
      Property.Unrepeated obj.properties := by
    simp [new, intrinsics, HostObject.ordinary, Property.Unrepeated]
  exact bare s (Array.mem_of_getElem? slot) obj occupied

/-- **In a reachable heap no object has two properties of one name.** -/
theorem Reachable.unrepeated (reachable : Reachable h) : h.Unrepeated := by
  induction reachable with
  | new id limits mode => exact unrepeated_new id limits mode
  | step before held c ih => exact ih.run before.intact held c

/-! ### The two ends of a deletion -/

/-- Whether an own property of the name is there and permanent. -/
def isPermanent (h : Heap) (o : Handle) (name : Text) : Bool :=
  match h.ownProperty o name with
  | .ok (some p) => p.attributes.permanent
  | _ => false

/-- What a deletion leaves: where the property is permanent, the heap; and else the heap without
the property, whether it was there or not. -/
structure AfterDelete (o : Handle) (name : Text) (h : Heap) (r : Except Fault Bool)
    (h' : Heap) : Prop where
  kept : h.isPermanent o name = true → r = .ok false ∧ h' = h
  removed : h.isPermanent o name = false →
    r = .ok true ∧ OnlyProperty o name h h' ∧ h'.ownProperty o name = .ok none

theorem OnlyProperty.refl (o : Handle) (name : Text) (h : Heap) : OnlyProperty o name h h where
  others _ _ := rfl
  object obj found := ⟨obj.properties, found, rfl⟩
  slots _ _ := rfl
  rest := rfl

/-- **A deletion leaves a permanent property and takes any other**, and it does nothing else. -/
theorem afterDelete_deleteOwn (valid : h.isValid o = true) (unrepeated : h.Unrepeated)
    (name : Text) : AfterDelete o name h (deleteOwn o name h).1 (deleteOwn o name h).2 := by
  obtain ⟨obj, found⟩ := isValid_iff.mp valid
  have own := ownProperty_of_object found name
  rw [deleteOwn_of_object found]
  cases there : Property.find? obj.properties name with
  | none =>
      have absent : h.isPermanent o name = false := by rw [isPermanent, own, there]
      refine ⟨fun permanent => ?_, fun _ => ⟨rfl, .refl o name h, own.trans (congrArg _ there)⟩⟩
      rw [absent] at permanent
      cases permanent
  | some old =>
      have is : h.isPermanent o name = old.attributes.permanent := by rw [isPermanent, own, there]
      dsimp only
      cases permanent : old.attributes.permanent with
      | true =>
          rw [permanent] at is
          exact ⟨fun _ => ⟨rfl, rfl⟩, fun no => absurd (is.symm.trans no) nofun⟩
      | false =>
          rw [permanent] at is
          refine ⟨fun yes => absurd (is.symm.trans yes) nofun, fun _ => ⟨rfl, ?_, ?_⟩⟩
          · exact onlyProperty_store found (Property.others_remove obj.properties name)
          · rw [if_neg Bool.false_ne_true,
              ownProperty_of_object (by rw [object_store found, if_pos rfl])]
            exact congrArg Except.ok (Property.find?_remove (unrepeated o obj found) name)

end Heap

end HostObjects
