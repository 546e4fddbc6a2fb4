import HostObjects.Proofs.Heap.ObjectGraph

/-!
# Values lost between the check and the write

Creating a property checks the value, makes room, and then writes.  Making room may
run a collection, and after it only the owner of the property is looked up again.
If nothing but the operation knew the value, the collection frees it, and the
property that is written holds the handle of an object that is gone.  `LosesValue`
says when that happens.

It is the one way in which the object graph gets a handle that names nothing.  A
value that is alive when the operation starts is never lost
(`not_losesValue_of_alive`), every operation that loses no value keeps the heap
sound, and so the graph is closed in all states of a run exactly if no command of
the run lost its value (`graphClosed_iff_no_loss`).

Operations that allocate several times are sound because they root what they have
made so far.  `Kept` is what they tell their callers: the open views are as before,
and what they root is still there.
-/

namespace HostObjects.Heap

variable {h h' h'' : Heap} {held : ClassId → Bool} {α β : Type}

/-- Creating the property loses its value: there was an object, and making room
leaves the owner but not the object. -/
def LosesValue (held : ClassId → Bool) (h : Heap) (o : Handle) (p : Property) : Prop :=
  ∃ v h', p.value = .object v ∧ h.isValid v = true ∧ h.hasOwn o p.name = .ok false ∧
    makeRoom held HostObject.propertyBytes h = (.ok (), h') ∧
    h'.isValid o = true ∧ h'.isValid v = false

theorem not_losesValue_of_alive {o v : Handle} {p : Property} (ok : Intact h)
    (value : p.value = .object v) (alive : Alive held h (.object v)) :
    ¬ LosesValue held h o p := by
  rintro ⟨v', h', value', -, -, room, -, gone⟩
  rw [value, Value.object.injEq] at value'
  subst value'
  have stays := alive.isValid_makeRoom ok HostObject.propertyBytes
  rw [room, gone] at stays
  cases stays

/-! ### What operations keep -/

/-- A later heap is sound, has the same open views, and has what they root. -/
structure Kept (h h' : Heap) : Prop where
  /-- The later heap is sound. -/
  sound : Sound h'
  /-- The open views are as before. -/
  stack : h'.stack = h.stack
  /-- What they root is still there. -/
  rooted : ∀ o, .object o ∈ h.stack.toList → h.isValid o = true → h'.isValid o = true

theorem Kept.refl (ok : Sound h) : Kept h h := ⟨ok, rfl, fun _ _ valid => valid⟩

theorem Kept.trans (first : Kept h h') (second : Kept h' h'') : Kept h h'' where
  sound := second.sound
  stack := second.stack.trans first.stack
  rooted o mem valid :=
    second.rooted o (by rw [first.stack]; exact mem) (first.rooted o mem valid)

theorem Sound.kept_makeRoom (ok : Sound h) (held : ClassId → Bool) (bytes : Nat) :
    Kept h (Heap.makeRoom held bytes h).2 where
  sound := ok.makeRoom held bytes
  stack := (makeRoom_beside held bytes h).2
  rooted o mem valid :=
    have alive : Alive held h (.object o) := .stack mem valid
    alive.isValid_makeRoom ok.toIntact bytes

theorem Sound.kept_place (ok : Sound h) {obj : HostObject}
    (links : ∀ l ∈ obj.links, h.isValid l = true) : Kept h (h.place obj).2 where
  sound := ok.place links
  stack := place_stack h obj
  rooted _ _ valid := ok.isValid_place obj valid

theorem Sound.kept_store (ok : Sound h) {o : Handle} {obj new : HostObject}
    (found : h.object o = .ok obj) (links : ∀ l ∈ new.links, h.isValid l = true) :
    Kept h (h.store o.index new) where
  sound := ok.store found links
  stack := rfl
  rooted p _ valid := (isValid_store found p).trans valid

/-- The contract of an operation on one sound heap: it keeps what it should,
whether it fails or not, and an answer goes with the heap it ends in. -/
def Keeping (h : Heap) (act : HeapM α) (Q : α → Heap → Prop) : Prop :=
  Meets (· = h) act (fun a h' => Kept h h' ∧ Q a h') (Kept h)

namespace Keeping

variable {act : HeapM α} {next : α → HeapM β} {Q : α → Heap → Prop}
  {R : β → Heap → Prop}

theorem bind (first : Keeping h act Q)
    (second : ∀ a h', Kept h h' → Q a h' → Keeping h' (next a) R) :
    Keeping h (act >>= next) R := by
  refine Meets.bind first fun a => Meets.of_each fun h' post => ?_
  refine Meets.imp (fun _ eq => eq) ?_ ?_ (second a h' post.1 post.2)
  · exact fun b h'' later => ⟨post.1.trans later.1, later.2⟩
  · exact fun h'' later => post.1.trans later

theorem pure (ok : Sound h) {a : α} (post : Q a h) :
    Keeping h (Pure.pure a : HeapM α) Q := by
  refine Meets.pure ?_
  rintro s rfl
  exact ⟨Kept.refl ok, post⟩

/-- An operation that is known to end in a kept heap. -/
theorem of_state (kept : Kept h (act h).2)
    (post : ∀ a h', act h = (.ok a, h') → Q a h') : Keeping h act Q := by
  rintro s rfl
  refine ⟨fun a h' run => ⟨?_, post a h' run⟩, fun e h' run => ?_⟩
  · rwa [run] at kept
  · rwa [run] at kept

/-- Looking at the heap, and going on with it. -/
theorem get_bind {next : Heap → HeapM β} (ok : Sound h) (second : Keeping h (next h) R) :
    Keeping h (MonadState.get >>= next) R := by
  refine bind (Q := fun a h' => a = h ∧ h' = h) ?_ ?_
  · refine of_state (Kept.refl ok) fun a h' run => ?_
    cases run
    exact ⟨rfl, rfl⟩
  · rintro a h' - ⟨rfl, rfl⟩
    exact second

/-- Reading from the heap, and going on with what was read. -/
theorem reading_bind (ok : Sound h) (f : Heap → Except Fault α)
    (second : ∀ a, f h = .ok a → Keeping h (next a) R) :
    Keeping h (reading f >>= next) R := by
  refine bind (Q := fun a h' => f h = .ok a ∧ h' = h) ?_ ?_
  · refine of_state (Kept.refl ok) fun a h' run => ?_
    obtain ⟨answer, state⟩ := Prod.mk.inj run
    exact ⟨answer, state.symm⟩
  · rintro a h' - ⟨read, rfl⟩
    exact second a read

end Keeping

/-- Changing an object, which is to link to objects that are there. -/
theorem Sound.change (ok : Sound h) (o : Handle) (f : HostObject → HostObject)
    (links : ∀ obj, h.object o = .ok obj → ∀ l ∈ (f obj).links, h.isValid l = true) :
    Keeping h (change o f) fun _ _ => True := by
  refine Keeping.of_state ?_ fun _ _ _ => trivial
  unfold Heap.change
  cases found : h.object o with
  | ok obj => exact ok.kept_store found (links obj found)
  | error e => exact Kept.refl ok

/-- Allocating an object that links to live objects. -/
theorem Sound.alloc (ok : Sound h) {obj : HostObject}
    (links : ∀ l ∈ obj.links, Alive held h (.object l)) :
    Keeping h (alloc held obj) fun o h' => h'.isValid o = true := by
  refine Keeping.bind (Q := fun _ h' => h' = (Heap.makeRoom held obj.size h).2) ?_ ?_
  · exact Keeping.of_state (ok.kept_makeRoom held _) fun _ h' run => by rw [run]
  · rintro _ h' kept rfl
    have there : ∀ l ∈ obj.links,
        (Heap.makeRoom held obj.size h).2.isValid l = true :=
      fun l mem => (links l mem).isValid_makeRoom ok.toIntact _
    refine Keeping.of_state (kept.sound.kept_place there) fun o h'' run => ?_
    cases run
    exact isValid_place_fst kept.sound.freeIsEmpty obj

/-! ### Properties -/

theorem Sound.defineOwn (ok : Sound h) {o : Handle} {p : Property}
    (keeps : ¬ LosesValue held h o p) :
    Keeping h (defineOwn held o p) fun _ _ => True := by
  unfold Heap.defineOwn
  refine Keeping.reading_bind ok _ fun _ storable => ?_
  refine Keeping.reading_bind ok _ fun old read => ?_
  cases old with
  | some _ =>
      refine ok.change o _ fun obj found l mem => ?_
      rcases mem_links_withUpdated mem with mem | value
      · exact ok.closed o obj found l mem
      · exact isValid_of_checkStorable storable value
  | none =>
      refine Keeping.bind
        (Q := fun _ h' => Heap.makeRoom held HostObject.propertyBytes h = (.ok (), h'))
        (Keeping.of_state (ok.kept_makeRoom held _) fun _ _ run => run) ?_
      rintro _ h' kept room
      refine kept.sound.change o _ fun obj found l mem => ?_
      rcases mem_links_withAdded.mp mem with mem | value
      · exact kept.sound.closed o obj found l mem
      · -- The owner was found again, so a value that is gone would be lost.
        by_contra gone
        refine keeps ⟨l, h', value, isValid_of_checkStorable storable value, ?_, room,
          isValid_of_object found, Bool.eq_false_iff.mpr gone⟩
        rw [hasOwn, read]
        rfl

theorem Sound.putOwn (ok : Sound h) {o : Handle} {p : Property}
    (keeps : ¬ LosesValue held h o p) :
    Keeping h (putOwn held o p) fun _ _ => True := by
  unfold Heap.putOwn
  refine Keeping.reading_bind ok _ fun _ storable => ?_
  refine Keeping.reading_bind ok _ fun old read => ?_
  cases old with
  | some old =>
      dsimp only
      split
      · exact Keeping.pure ok trivial
      · refine Keeping.bind (ok.change o _ fun obj found l mem => ?_)
          fun _ _ kept _ => Keeping.pure kept.sound trivial
        rcases mem_links_withUpdated mem with mem | value
        · exact ok.closed o obj found l mem
        · exact isValid_of_checkStorable storable value
  | none => exact (ok.defineOwn keeps).bind fun _ _ kept _ => Keeping.pure kept.sound trivial

theorem Sound.deleteOwn (ok : Sound h) (o : Handle) (name : Text) :
    Keeping h (deleteOwn o name) fun _ _ => True := by
  unfold Heap.deleteOwn
  refine Keeping.reading_bind ok _ fun old read => ?_
  cases old with
  | none => exact Keeping.pure ok trivial
  | some old =>
      dsimp only
      split
      · exact Keeping.pure ok trivial
      · refine Keeping.bind (ok.change o _ fun obj found l mem => ?_)
          fun _ _ kept _ => Keeping.pure kept.sound trivial
        exact ok.closed o obj found l (mem_links_withRemoved mem)

/-- A chain that was walked to its end starts with an object of the heap. -/
theorem isValid_of_checkChain {o : Handle} {budget : Nat}
    {visited : Std.HashSet Handle} {p : Option Handle}
    (walked : h.checkChain o budget visited p = .ok ()) {l : Handle} (start : p = some l) :
    h.isValid l = true := by
  subst start
  cases budget with
  | zero => cases walked
  | succ budget =>
      unfold checkChain at walked
      split at walked
      · cases walked
      · rw [prototype] at walked
        cases found : h.object l with
        | ok obj => exact isValid_of_object found
        | error e =>
            rw [found] at walked
            cases walked

theorem Sound.setPrototype (ok : Sound h) (o : Handle) (p : Option Handle) :
    Keeping h (setPrototype o p) fun _ _ => True := by
  unfold Heap.setPrototype
  refine Keeping.reading_bind ok _ fun _ _ => ?_
  refine Keeping.reading_bind ok _ fun _ walked => ?_
  refine ok.change o _ fun obj found l mem => ?_
  rcases HostObject.mem_links_iff.mp mem with link | ⟨q, memq, value⟩
  · split at walked
    · cases walked
    · exact isValid_of_checkChain walked link
  · exact ok.closed o obj found l (HostObject.mem_links_iff.mpr (Or.inr ⟨q, memq, value⟩))

theorem Sound.setPrivate (ok : Sound h) (o : Handle) (data : Option PrivateData) :
    Keeping h (setPrivate o data) fun _ _ => True :=
  ok.change o _ fun obj found l mem => ok.closed o obj found l mem

/-! ### Functions and class prototypes -/

theorem Sound.pushRoot (ok : Sound h) (v : Value) : Sound (h.pushRoot v) :=
  ok.beside ⟨rfl, rfl, rfl, rfl, rfl⟩ ok.shared_valid

/-- What an operation roots while it runs is there at its end. -/
theorem Keeping.rooting {o : Handle} {act : HeapM α} {Q : α → Heap → Prop}
    (keeping : Keeping (h.pushRoot (.object o)) act Q) :
    Keeping h (rooting (.object o) act)
      fun _ h' => h.isValid o = true → h'.isValid o = true := by
  have kept : Kept (h.pushRoot (.object o)) (act (h.pushRoot (.object o))).2 := by
    rcases run : act (h.pushRoot (.object o)) with ⟨_ | a, h'⟩
    · exact (keeping _ rfl).2 _ _ run
    · exact ((keeping _ rfl).1 _ _ run).1
  -- The operation left the views alone, so what is popped is what was pushed.
  have same : SameTable (act (h.pushRoot (.object o))).2
      (act (h.pushRoot (.object o))).2.popRoot := ⟨rfl, rfl, rfl, rfl, rfl⟩
  refine Keeping.of_state ⟨?_, ?_, ?_⟩ fun _ h' run valid => ?_
  · exact kept.sound.beside same kept.sound.shared_valid
  · show (act (h.pushRoot (.object o))).2.stack.pop = h.stack
    rw [kept.stack]
    simp [Heap.pushRoot]
  · intro p mem valid
    exact kept.rooted p (by simp [Heap.pushRoot, Array.mem_def.mpr mem]) valid
  · have state : h' = (act (h.pushRoot (.object o))).2.popRoot :=
      (congrArg Prod.snd run).symm
    rw [state]
    exact kept.rooted o (by simp [Heap.pushRoot]) valid

theorem Sound.allocFunction (ok : Sound h) (name : Text) (call : HostFunction) :
    Keeping h (allocFunction held name call) fun f h' => h'.isValid f = true := by
  have links : ∀ l ∈ (h.functionObject name call).links, Alive held h (.object l) := by
    intro l mem
    rw [List.mem_singleton.mp mem]
    exact .functionPrototype
  unfold Heap.allocFunction
  refine Keeping.get_bind ok (Keeping.bind (ok.alloc links) fun f h₁ kept valid => ?_)
  refine Keeping.bind (Keeping.rooting ((kept.sound.pushRoot _).defineOwn ?_))
    fun _ h₂ kept' stays => Keeping.pure kept'.sound (stays valid)
  rintro ⟨v, _, value, -⟩
  cases value

theorem Sound.populate (ok : Sound h) (proto : Handle) (entries : List StaticFunction) :
    Keeping h (populate held proto entries) fun _ _ => True := by
  induction entries generalizing h with
  | nil => exact Keeping.pure ok trivial
  | cons entry rest ih =>
      refine Keeping.bind (ok.allocFunction _ _) fun f h₁ kept valid => ?_
      refine Keeping.bind (Keeping.rooting ((kept.sound.pushRoot _).defineOwn ?_))
        fun _ h₂ kept' _ => ih kept'.sound
      -- The function is the value, and it is rooted.
      exact not_losesValue_of_alive (kept.sound.pushRoot _).toIntact rfl
        (.stack (by simp [Heap.pushRoot]) valid)

theorem mem_of_classPrototype? {id : ClassId} {proto : Handle}
    (cached : h.classPrototype? id = some proto) : (id, proto) ∈ h.classPrototypes := by
  unfold classPrototype? at cached
  obtain ⟨⟨id', proto'⟩, hfind, rfl⟩ := Option.map_eq_some_iff.mp cached
  have same := List.find?_some hfind
  rw [beq_iff_eq] at same
  subst same
  exact List.mem_of_find?_eq_some hfind

theorem classPrototype?_recordPrototype (h : Heap) (id : ClassId) (proto : Handle) :
    (h.recordPrototype id proto).classPrototype? id = some proto := by
  simp [Heap.recordPrototype, classPrototype?]

/-- A shared prototype of a class that is held is alive. -/
theorem alive_of_classPrototype? (shared : SharedValid h) {id : ClassId} {proto : Handle}
    (cached : h.classPrototype? id = some proto) (inUse : held id = true) :
    Alive held h (.object proto) := by
  have mem := mem_of_classPrototype? cached
  exact .classPrototype mem (by simp [classInUse, inUse]) (shared id proto mem)

/-- **Class prototypes are built without loss**: the prototype that is answered is
alive as long as the classes are held. -/
theorem Sound.prototypeOf (ok : Sound h) {chain : List Descriptor}
    (inUse : ∀ d ∈ chain, held d.id = true) :
    Keeping h (prototypeOf held chain) fun o h' => Alive held h' (.object o) := by
  induction chain generalizing h with
  | nil => exact Keeping.get_bind ok (Keeping.pure ok .objectPrototype)
  | cons d ancestors ih =>
      have usedByOthers : ∀ d ∈ ancestors, held d.id = true :=
        fun d mem => inUse d (List.mem_cons_of_mem _ mem)
      unfold Heap.prototypeOf
      refine Keeping.get_bind ok ?_
      split
      · exact Keeping.pure ok .objectPrototype
      · cases cached : h.classPrototype? d.id with
        | some proto =>
            exact Keeping.pure ok
              (alive_of_classPrototype? ok.shared_valid cached (inUse d List.mem_cons_self))
        | none =>
            refine Keeping.bind (ih ok usedByOthers) fun parent h₁ kept₁ alive => ?_
            have links : ∀ l ∈ (HostObject.ordinary (some parent)).links,
                Alive held h₁ (.object l) := by
              intro l mem
              rw [List.mem_singleton.mp mem]
              exact alive
            refine Keeping.bind (kept₁.sound.alloc links) fun proto h₂ kept₂ valid => ?_
            refine Keeping.bind
              (Keeping.rooting ((kept₂.sound.pushRoot _).populate proto _))
              fun _ h₃ kept₃ stays => ?_
            -- The prototype is recorded where it is still there.
            have shared : ∀ id o, (id, o) ∈ (h₃.recordPrototype d.id proto).classPrototypes →
                h₃.isValid o = true := by
              intro id o mem
              rcases List.mem_cons.mp mem with eq | mem
              · cases eq
                exact stays valid
              · exact kept₃.sound.shared_valid id o (List.mem_filter.mp mem).1
            have recorded : Sound (h₃.recordPrototype d.id proto) :=
              kept₃.sound.beside ⟨rfl, rfl, rfl, rfl, rfl⟩ shared
            refine Keeping.bind
              (Q := fun _ h₄ => h₄ = h₃.recordPrototype d.id proto)
              (Keeping.of_state ⟨recorded, rfl, fun _ _ there => there⟩ ?_) ?_
            · intro _ h₄ run
              exact (congrArg Prod.snd run).symm
            · rintro _ h₄ - rfl
              exact Keeping.pure recorded (alive_of_classPrototype? recorded.shared_valid
                (classPrototype?_recordPrototype h₃ d.id proto) (inUse d List.mem_cons_self))

/-! ### Commands -/

/-- The prototype that instances of a class start with, if it is there. -/
def instancePrototype? (h : Heap) (c : Class) : Option Handle :=
  if c.own.automatic then h.classPrototype? c.id else some h.objectPrototype

/-- What is seen to before a command runs: the classes it uses are held, and an
instance gets the prototype of its class. -/
def Command.Allowed (held : ClassId → Bool) (h : Heap) : Command → Prop
  | .prototypeOf c => ∀ d ∈ c.chain, held d.id = true
  | .allocInstance c _ proto =>
    (∀ d ∈ c.chain, held d.id = true) ∧ h.instancePrototype? c = some proto
  | _ => True

/-- The prototype that instances of a class get is alive while the class is held. -/
theorem alive_of_instancePrototype? (shared : SharedValid h) {c : Class} {proto : Handle}
    (inUse : ∀ d ∈ c.chain, held d.id = true)
    (start : h.instancePrototype? c = some proto) : Alive held h (.object proto) := by
  unfold instancePrototype? at start
  split at start
  · exact alive_of_classPrototype? shared start (inUse c.own List.mem_cons_self)
  · cases start
    exact .objectPrototype

/-- The command loses the value that it writes. -/
def Command.LosesValue (held : ClassId → Bool) (h : Heap) : Command → Prop
  | .defineOwn o p => Heap.LosesValue held h o p
  | .putOwn o p => Heap.LosesValue held h o p
  | _ => False

theorem Keeping.state {act : HeapM α} {Q : α → Heap → Prop} (keeping : Keeping h act Q) :
    Sound (act h).2 := by
  rcases run : act h with ⟨_ | a, h'⟩
  · exact ((keeping h rfl).2 _ _ run).sound
  · exact ((keeping h rfl).1 _ _ run).1.sound

/-- **A command that loses no value keeps the heap sound.** -/
theorem Sound.run (ok : Sound h) {c : Command} (allowed : c.Allowed held h)
    (keeps : ¬ c.LosesValue held h) : Sound (c.run held h) := by
  by_cases hb : c.isBeside = true
  · obtain ⟨same, -, shared⟩ := c.run_beside held h hb
    exact ok.beside same (by rw [shared]; exact ok.shared_valid)
  · cases c with
    | collect => exact ok.collect held
    | allocPlain =>
        refine Keeping.state (Keeping.get_bind ok (ok.alloc fun l mem => ?_))
        rw [List.mem_singleton.mp mem]
        exact .objectPrototype
    | allocFunction name call => exact Keeping.state (ok.allocFunction name call)
    | allocConstructor made construct =>
        refine Keeping.state (ok.alloc fun l mem => ?_)
        rw [List.mem_singleton.mp mem]
        exact .functionPrototype
    | prototypeOf c => exact Keeping.state (ok.prototypeOf allowed)
    | allocInstance c data proto =>
        obtain ⟨inUse, start⟩ := allowed
        refine Keeping.state (ok.alloc fun l mem => ?_)
        rw [List.mem_singleton.mp mem]
        exact alive_of_instancePrototype? ok.shared_valid inUse start
    | defineOwn o p => exact Keeping.state (ok.defineOwn keeps)
    | putOwn o p => exact Keeping.state (ok.putOwn keeps)
    | deleteOwn o name => exact Keeping.state (ok.deleteOwn o name)
    | setPrototype o p => exact Keeping.state (ok.setPrototype o p)
    | setPrivate o data => exact Keeping.state (ok.setPrivate o data)
    | settle => exact ok.beside ⟨rfl, rfl, rfl, rfl, rfl⟩ ok.shared_valid
    | _ => exact absurd rfl hb

/-! ### What a lost value leaves -/

theorem reading_bind_of_ok {f : Heap → Except Fault α} {next : α → HeapM β} {a : α}
    (read : f h = .ok a) : (reading f >>= next) h = next a h := by
  rw [bind_apply]
  simp only [reading, read]

/-- Defining a missing property is making room and adding it. -/
theorem defineOwn_of_missing {o : Handle} {p : Property}
    (storable : h.checkStorable p.value = .ok ())
    (missing : h.ownProperty o p.name = .ok none) :
    Heap.defineOwn held o p h =
      (Heap.makeRoom held HostObject.propertyBytes >>= fun _ =>
        Heap.change o (withAdded p)) h := by
  unfold Heap.defineOwn
  rw [reading_bind_of_ok storable, reading_bind_of_ok missing]

/-- Writing a missing property is defining it. -/
theorem putOwn_of_missing {o : Handle} {p : Property}
    (storable : h.checkStorable p.value = .ok ())
    (missing : h.ownProperty o p.name = .ok none) :
    (Heap.putOwn held o p h).2 = (Heap.defineOwn held o p h).2 := by
  unfold Heap.putOwn
  rw [reading_bind_of_ok storable, reading_bind_of_ok missing]
  dsimp only
  rw [bind_apply]
  rcases Heap.defineOwn held o p h with ⟨_ | _, _⟩ <;> rfl

theorem LosesValue.missing {o : Handle} {p : Property} (loses : LosesValue held h o p) :
    h.checkStorable p.value = .ok () ∧ h.ownProperty o p.name = .ok none := by
  obtain ⟨v, _, value, valid, absent, -⟩ := loses
  refine ⟨?_, ?_⟩
  · rw [value]
    exact check_eq_ok_iff.mpr valid
  · unfold hasOwn at absent
    cases read : h.ownProperty o p.name with
    | error e =>
        rw [read] at absent
        cases absent
    | ok found =>
        rw [read] at absent
        cases found with
        | none => rfl
        | some q => cases absent

theorem LosesValue.not_closed {o : Handle} {p : Property} (loses : LosesValue held h o p) :
    ¬ GraphClosed (Heap.defineOwn held o p h).2 := by
  obtain ⟨storable, missing⟩ := loses.missing
  obtain ⟨v, h', value, -, -, room, owner, gone⟩ := loses
  obtain ⟨obj, found⟩ := isValid_iff.mp owner
  have written : (Heap.defineOwn held o p h).2 = h'.store o.index (withAdded p obj) := by
    rw [defineOwn_of_missing storable missing, bind_apply, room]
    simp only [Heap.change, found]
  intro closed
  rw [written] at closed
  -- The new property links to a handle that names nothing.
  have there := closed o (withAdded p obj) (by rw [object_store found, if_pos rfl]) v
    (mem_links_withAdded.mpr (Or.inr value))
  rw [isValid_store found, gone] at there
  cases there

/-- **A command that loses its value leaves a graph that is not closed.** -/
theorem Command.LosesValue.not_closed {c : Command} (loses : c.LosesValue held h) :
    ¬ GraphClosed (c.run held h) := by
  cases c with
  | defineOwn o p => exact Heap.LosesValue.not_closed loses
  | putOwn o p =>
      have lost : Heap.LosesValue held h o p := loses
      obtain ⟨storable, missing⟩ := lost.missing
      rw [Command.run, putOwn_of_missing storable missing]
      exact lost.not_closed
  | _ => exact loses.elim

/-! ### Runs -/

/-- Each turn is allowed in the heap it runs on. -/
def AllAllowed (h : Heap) : List Turn → Prop
  | [] => True
  | t :: ts => t.command.Allowed t.held h ∧ AllAllowed (t.run h) ts

/-- The heaps of a run, the first one included. -/
def states (h : Heap) : List Turn → List Heap
  | [] => [h]
  | t :: ts => h :: states (t.run h) ts

theorem after_mem_states (h : Heap) (turns : List Turn) : h.after turns ∈ states h turns := by
  induction turns generalizing h with
  | nil => exact List.mem_cons_self
  | cons t ts ih => exact List.mem_cons_of_mem _ (ih (t.run h))

/-- Some turn of a run loses its value. -/
def SomeLost (h : Heap) : List Turn → Prop
  | [] => False
  | t :: ts => t.command.LosesValue t.held h ∨ SomeLost (t.run h) ts

theorem closed_of_none_lost (ok : Sound h) {turns : List Turn}
    (allowed : AllAllowed h turns) (noLoss : ¬ SomeLost h turns) :
    ∀ h' ∈ states h turns, GraphClosed h' := by
  induction turns generalizing h with
  | nil =>
      intro h' mem
      rw [List.mem_singleton.mp mem]
      exact ok.closed
  | cons t ts ih =>
      intro h' mem
      rcases List.mem_cons.mp mem with rfl | mem
      · exact ok.closed
      · have next := ok.run allowed.1 fun loses => noLoss (Or.inl loses)
        exact ih next allowed.2 (fun lost => noLoss (Or.inr lost)) h' mem

theorem not_closed_of_some_lost {turns : List Turn} (lost : SomeLost h turns) :
    ∃ h' ∈ states h turns, ¬ GraphClosed h' := by
  induction turns generalizing h with
  | nil => exact lost.elim
  | cons t ts ih =>
      rcases lost with loses | lost
      · refine ⟨t.run h, List.mem_cons_of_mem _ ?_, loses.not_closed⟩
        cases ts <;> exact List.mem_cons_self
      · obtain ⟨h', mem, broken⟩ := ih lost
        exact ⟨h', List.mem_cons_of_mem _ mem, broken⟩

/-- **The object graph is closed in all states of a run iff no command of the run
lost the value that it wrote.**  So no handle of an object that is gone, or of
another heap, gets into the graph in any other way. -/
theorem graphClosed_iff_no_loss (id : HeapId) (limits : Limits) (mode : CollectionMode)
    (turns : List Turn) (allowed : AllAllowed (new id limits mode) turns) :
    (∀ h ∈ states (new id limits mode) turns, GraphClosed h) ↔
      ¬ SomeLost (new id limits mode) turns := by
  constructor
  · intro closed lost
    obtain ⟨h, mem, broken⟩ := not_closed_of_some_lost lost
    exact broken (closed h mem)
  · exact closed_of_none_lost (sound_new id limits mode) allowed

/-- A heap that asks for a collection once it counts more than four plain objects. -/
def tight : Heap := new ⟨0⟩ ⟨100000, 480⟩ .synchronous

/-- A property with the second object that a heap allocates as its value. -/
def linking : Property := ⟨Text.ofString "x", .object ⟨⟨0⟩, 3, 0⟩, .none⟩

/-- An object gets another one as its property, and both are rooted. -/
def bothRooted : List Turn :=
  turnsOf [.allocPlain, .addRoot (.object ⟨⟨0⟩, 2, 0⟩), .allocPlain,
    .addRoot (.object ⟨⟨0⟩, 3, 0⟩), .defineOwn ⟨⟨0⟩, 2, 0⟩ linking]

/-- In that run the graph stays closed, although a collection runs. -/
theorem graphClosed_bothRooted :
    AllAllowed tight bothRooted ∧ ∀ h ∈ states tight bothRooted, GraphClosed h := by
  have allowed : AllAllowed tight bothRooted :=
    ⟨trivial, trivial, trivial, trivial, trivial, trivial⟩
  refine ⟨allowed, (graphClosed_iff_no_loss _ _ _ bothRooted allowed).mpr ?_⟩
  -- Only the last of the commands writes a property.
  rintro (no | no | no | no | loses | no)
  · exact no
  · exact no
  · exact no
  · exact no
  · refine not_losesValue_of_alive (Reachable.intact ?_) rfl (.root ?_ rfl) loses
    · exact (Reachable.new _ _ _).after (bothRooted.take 4)
    · exact List.mem_cons_of_mem _ List.mem_cons_self
  · exact no

/-- An object gets another one as its property, and only the first is rooted. -/
def oneRooted : List Turn :=
  turnsOf [.allocPlain, .addRoot (.object ⟨⟨0⟩, 2, 0⟩), .allocPlain,
    .defineOwn ⟨⟨0⟩, 2, 0⟩ linking]

theorem losesValue_oneRooted :
    LosesValue (fun _ => false) (tight.after (oneRooted.take 3)) ⟨⟨0⟩, 2, 0⟩ linking := by
  have room : (makeRoom (fun _ => false) HostObject.propertyBytes
      (tight.after (oneRooted.take 3))).1 = .ok () := by
    decide +kernel
  exact ⟨⟨⟨0⟩, 3, 0⟩, (makeRoom (fun _ => false) HostObject.propertyBytes
      (tight.after (oneRooted.take 3))).2,
    rfl, by decide, by decide, Prod.ext room rfl, by decide +kernel, by decide +kernel⟩

/-- **A property that outlives its value**: in that run the second object becomes a
property of the first, and the graph that this leaves is not closed. -/
theorem not_graphClosed_oneRooted :
    AllAllowed tight oneRooted ∧ Reachable (tight.after oneRooted) ∧
      ¬ GraphClosed (tight.after oneRooted) :=
  ⟨⟨trivial, trivial, trivial, trivial, trivial⟩, (Reachable.new _ _ _).after oneRooted,
    losesValue_oneRooted.not_closed⟩

end HostObjects.Heap
