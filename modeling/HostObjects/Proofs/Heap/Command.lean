import HostObjects.Heap.Roots
import HostObjects.Proofs.Heap.Liveness
import HostObjects.Proofs.Heap.Stable

/-!
# Everything a host does with a heap

A `Command` is one operation on a heap, among all there are: the public ones and
those that views make of it.  `Reachable` are the heaps that any sequence of
commands leads to, whatever classes are held from elsewhere at each of them.  An
invariant of heaps is an induction over it, with one case for a new heap and one for
all commands, which `Stable.run` reduces to four kinds of steps.
-/

namespace HostObjects.Heap

/-- One operation on a heap. -/
inductive Command where
  | collect
  | setMode (mode : CollectionMode)
  | allocPlain
  | allocFunction (name : Text) (call : HostFunction)
  | allocConstructor (made : Option Class) (construct : Option HostFunction)
  /-- Find the shared prototype of a class, or build it. -/
  | prototypeOf (c : Class)
  | allocInstance (c : Class) (data : Option PrivateData) (proto : Handle)
  | defineOwn (o : Handle) (p : Property)
  | putOwn (o : Handle) (p : Property)
  | deleteOwn (o : Handle) (name : Text)
  | setPrototype (o : Handle) (p : Option Handle)
  | setPrivate (o : Handle) (data : Option PrivateData)
  /-- Root a value in a view. -/
  | pushRoot (v : Value)
  /-- Leave a scope of a view. -/
  | cutStack (height : Nat)
  | addRoot (v : Value)
  | setRoot (r : RootPlace) (v : Value)
  | removeRoot (r : RootPlace)
  | pin (v : Value)
  | unpin (v : Value)
  | addEdge (owner target : Node)
  | removeEdge (owner target : Node)
  | addHostRoot (key : HostNode)
  | removeHostRoot (key : HostNode)
  /-- Hand the dead objects to their finalizers. -/
  | settle

namespace Command

/-- What a command makes of a heap, whether it fails or not. -/
def run (held : ClassId → Bool) (h : Heap) : Command → Heap
  | collect => h.collect held
  | setMode mode => { h with mode := mode }
  | allocPlain => (Heap.allocPlain held h).2
  | allocFunction name call => (Heap.allocFunction held name call h).2
  | allocConstructor made construct =>
    (alloc held ⟨some h.functionPrototype, none, .constructor made construct, [], none⟩ h).2
  | prototypeOf c => (Heap.prototypeOf held c.chain h).2
  | allocInstance c data proto => (Heap.allocInstance held c data proto h).2
  | defineOwn o p => (Heap.defineOwn held o p h).2
  | putOwn o p => (Heap.putOwn held o p h).2
  | deleteOwn o name => (Heap.deleteOwn o name h).2
  | setPrototype o p => (Heap.setPrototype o p h).2
  | setPrivate o data => (Heap.setPrivate o data h).2
  | pushRoot v => h.pushRoot v
  | cutStack height => h.cutStack height
  | addRoot v => (h.addRoot v).2
  | setRoot r v => h.setRoot r v
  | removeRoot r => h.removeRoot r
  | pin v => (Heap.pin v h).2
  | unpin v => h.unpin v
  | addEdge owner target => (Heap.addEdge owner target h).2
  | removeEdge owner target => (h.removeEdge owner target).2
  | addHostRoot key => h.addHostRoot key
  | removeHostRoot key => (h.removeHostRoot key).2
  | settle => { h with reaped := [] }

end Command

/-- The heaps that commands lead to. -/
inductive Reachable : Heap → Prop
  | new (id : HeapId) (limits : Limits) (mode : CollectionMode) :
      Reachable (new id limits mode)
  | step {h : Heap} (reachable : Reachable h) (held : ClassId → Bool) (c : Command) :
      Reachable (c.run held h)

/-- A property of heaps that every command keeps. -/
def Unbroken (I : Heap → Prop) : Prop :=
  ∀ held h (c : Command), I h → I (c.run held h)

/-! ### Runs -/

/-- A command, and the classes that are held from elsewhere while it runs. -/
structure Turn where
  held : ClassId → Bool
  command : Command

/-- What a turn makes of a heap. -/
def Turn.run (t : Turn) (h : Heap) : Heap := t.command.run t.held h

/-- The heap after some turns. -/
def after (h : Heap) (turns : List Turn) : Heap := turns.foldl (fun h t => t.run h) h

/-- Turns in which no class is held. -/
def turnsOf (commands : List Command) : List Turn := commands.map fun c => ⟨fun _ => false, c⟩

theorem Reachable.after {h : Heap} (reachable : Reachable h) (turns : List Turn) :
    Reachable (h.after turns) := by
  induction turns generalizing h with
  | nil => exact reachable
  | cons t ts ih => exact ih (reachable.step t.held t.command)

/-! ### Commands keep what steps keep -/

variable {h : Heap}

/-- The command is about roots, edges and the mode, and leaves the objects alone. -/
def Command.isBeside : Command → Bool
  | setMode _ | pushRoot _ | cutStack _ | addRoot _ | setRoot _ _ | removeRoot _ | pin _
  | unpin _ | addEdge _ _ | removeEdge _ _ | addHostRoot _ | removeHostRoot _ => true
  | _ => false

/-- Such a command changes the mode, the roots and the edges and nothing else. -/
theorem Command.run_eq_of_isBeside (held : ClassId → Bool) (h : Heap) {c : Command}
    (beside : c.isBeside = true) :
    c.run held h =
      { h with
        mode := (c.run held h).mode
        stack := (c.run held h).stack
        roots := (c.run held h).roots
        freeRoots := (c.run held h).freeRoots
        pins := (c.run held h).pins
        edges := (c.run held h).edges
        hostRoots := (c.run held h).hostRoots } := by
  cases c with
  | setMode | pushRoot | cutStack | removeEdge | addHostRoot | removeHostRoot => rfl
  | addRoot v =>
      simp only [Command.run, Heap.addRoot]
      split <;> rfl
  | setRoot r v =>
      simp only [Command.run, Heap.setRoot]
      split <;> rfl
  | removeRoot r =>
      simp only [Command.run, Heap.removeRoot]
      split <;> rfl
  | pin v =>
      simp only [Command.run, Heap.pin]
      split
      · split <;> rfl
      · rfl
  | unpin v =>
      simp only [Command.run, Heap.unpin]
      split <;> rfl
  | addEdge owner target =>
      simp only [Command.run, Heap.addEdge]
      split
      · rfl
      · split <;> rfl
  | collect | allocPlain | allocFunction | allocConstructor | prototypeOf | allocInstance
  | defineOwn | putOwn | deleteOwn | setPrototype | setPrivate | settle => cases beside

theorem Command.run_beside (held : ClassId → Bool) (h : Heap) {c : Command}
    (beside : c.isBeside = true) :
    SameTable h (c.run held h) ∧ (c.run held h).reaped = h.reaped ∧
      (c.run held h).classPrototypes = h.classPrototypes := by
  have eq := c.run_eq_of_isBeside held h beside
  refine ⟨⟨?_, ?_, ?_, ?_, ?_⟩, ?_, ?_⟩
  · exact (congrArg Heap.id eq :)
  · exact (congrArg Heap.slots eq :)
  · exact (congrArg Heap.marks eq :)
  · exact (congrArg Heap.free eq :)
  · exact (congrArg Heap.used eq :)
  · exact (congrArg Heap.reaped eq :)
  · exact (congrArg Heap.classPrototypes eq :)

/-- The command makes room for something new, for which it may run a collection. -/
def Command.allocates : Command → Bool
  | collect | allocPlain | allocFunction _ _ | allocConstructor _ _ | prototypeOf _
  | allocInstance _ _ _ | defineOwn _ _ | putOwn _ _ => true
  | _ => false

/-- The command roots a value in a view, or leaves a scope. -/
def Command.movesStack : Command → Bool
  | pushRoot _ | cutStack _ => true
  | _ => false

/-- The command writes or removes an own property. -/
def Command.onProperty : Command → Bool
  | defineOwn _ _ | putOwn _ _ | deleteOwn _ _ => true
  | _ => false

theorem Command.isBeside_of_movesStack {c : Command} (moves : c.movesStack = true) :
    c.isBeside = true := by
  cases c with
  | pushRoot | cutStack => rfl
  | _ => cases moves

theorem Command.still_of_allocates {c : Command} (allocates : c.allocates = true) :
    c.movesStack = false := by
  cases c with
  | pushRoot | cutStack => cases allocates
  | _ => rfl

/-- No other command beside the objects touches the stack. -/
theorem Command.run_stack_of_isBeside (held : ClassId → Bool) (h : Heap) {c : Command}
    (beside : c.isBeside = true) (still : c.movesStack = false) :
    (c.run held h).stack = h.stack := by
  cases c with
  | setMode | removeEdge | addHostRoot | removeHostRoot => rfl
  | addRoot v =>
      simp only [Command.run, Heap.addRoot]
      split <;> rfl
  | setRoot r v =>
      simp only [Command.run, Heap.setRoot]
      split <;> rfl
  | removeRoot r =>
      simp only [Command.run, Heap.removeRoot]
      split <;> rfl
  | pin v =>
      simp only [Command.run, Heap.pin]
      split
      · split <;> rfl
      · rfl
  | unpin v =>
      simp only [Command.run, Heap.unpin]
      split <;> rfl
  | addEdge owner target =>
      simp only [Command.run, Heap.addEdge]
      split
      · rfl
      · split <;> rfl
  | pushRoot | cutStack => cases still
  | collect | allocPlain | allocFunction | allocConstructor | prototypeOf | allocInstance
  | defineOwn | putOwn | deleteOwn | setPrototype | setPrivate | settle => cases beside

/-- The command makes an object of a class. -/
def Command.makesInstance : Command → Bool
  | allocInstance _ _ _ => true
  | _ => false

/-- **Commands are made of steps**: what the steps keep every command keeps, unless it
makes an object of a class, moves the stack or hands dead objects over.  The stack is
then what it was. -/
theorem Classless.run {I : Array Value → Heap → Prop} (classless : Classless I)
    (held : ClassId → Bool) {S : Array Value} {c : Command} (notSettle : c ≠ .settle)
    (still : c.movesStack = false) (noInstance : c.makesInstance = false) (hs : I S h) :
    I S (c.run held h) := by
  by_cases hb : c.isBeside = true
  · obtain ⟨same, kept, -⟩ := c.run_beside held h hb
    exact classless.beside S h _ same kept (c.run_stack_of_isBeside held h hb still) hs
  · cases c with
    | collect => exact classless.collect S held h hs
    | allocPlain => exact (classless.allocPlain held S).state hs
    | allocFunction name call => exact (classless.allocFunction held S name call).state hs
    | allocConstructor made construct => exact (classless.alloc held S _ rfl).state hs
    | prototypeOf c => exact (classless.prototypeOf held S c.chain).state hs
    | allocInstance => cases noInstance
    | defineOwn o p => exact (classless.defineOwn held S o p).state hs
    | putOwn o p => exact (classless.putOwn held S o p).state hs
    | deleteOwn o name => exact (classless.deleteOwn S o name).state hs
    | setPrototype o p => exact (classless.setPrototype S o p).state hs
    | setPrivate o data => exact (classless.setPrivate S o data).state hs
    | settle => exact absurd rfl notSettle
    | _ => exact absurd rfl hb

/-- A steady property is kept by the command that makes instances as well. -/
theorem Steady.run {I : Array Value → Heap → Prop} (steady : Steady I)
    (held : ClassId → Bool) {S : Array Value} {c : Command} (notSettle : c ≠ .settle)
    (still : c.movesStack = false) (hs : I S h) : I S (c.run held h) := by
  cases c with
  | allocInstance c data proto => exact (steady.allocInstance held S c data proto).state hs
  | _ => exact steady.classless.run held notSettle still rfl hs

/-- A stable property is kept by the commands that move the stack as well. -/
theorem Stable.run {I : Heap → Prop} (stable : Stable I) (held : ClassId → Bool)
    {c : Command} (notSettle : c ≠ .settle) (hs : I h) : I (c.run held h) := by
  by_cases moves : c.movesStack = true
  · obtain ⟨same, kept, -⟩ := c.run_beside held h (c.isBeside_of_movesStack moves)
    exact stable.beside h _ same kept hs
  · exact stable.steady.run held (S := #[]) notSettle ((Bool.not_eq_true _).mp moves) hs

/-- The command changes the persistent roots, the pins or the edges, or hands dead objects
over. -/
def Command.books : Command → Bool
  | addRoot _ | setRoot _ _ | removeRoot _ | pin _ | unpin _ | addEdge _ _ | removeEdge _ _
  | settle => true
  | _ => false

/-- A tracked property is kept by the commands that do nothing of the kind, if the shared
prototypes do not matter to it. -/
theorem Tracked.run {I : Heap → Prop} (tracked : Tracked I) (held : ClassId → Bool)
    {c : Command} (other : c.books = false) (hs : I h) : I (c.run held h) := by
  have beside : ∀ h', h'.id = h.id → h'.slots = h.slots → h'.marks = h.marks →
      h'.free = h.free → h'.used = h.used → SameLedger h h' → h'.reaped = h.reaped → I h' :=
    fun h' hid hslots hmarks hfree hused same reaped =>
      tracked.beside h h' ⟨hid, hslots, hmarks, hfree, hused⟩ same reaped hs
  have quiet := tracked.quiet held
  cases c with
  | setMode | pushRoot | cutStack | addHostRoot | removeHostRoot =>
      exact beside _ rfl rfl rfl rfl rfl ⟨rfl, rfl, rfl, rfl⟩ rfl
  | collect => exact tracked.collect held h hs
  | allocPlain => exact (quiet.allocPlain #[]).state hs
  | allocFunction name call => exact (quiet.allocFunction #[] name call).state hs
  | allocConstructor made construct =>
      exact (quiet.alloc #[] fun h => tracked.place _ h).state hs
  | prototypeOf c =>
      refine (quiet.prototypeOf #[] (fun _ h => tracked.place _ h) ?_ c.chain).state hs
      exact fun _ _ h => tracked.beside h _ ⟨rfl, rfl, rfl, rfl, rfl⟩ ⟨rfl, rfl, rfl, rfl⟩ rfl
  | allocInstance c data proto =>
      exact (quiet.alloc #[] fun h => tracked.place _ h).state hs
  | defineOwn o p => exact (quiet.defineOwn #[] o p).state hs
  | putOwn o p => exact (quiet.putOwn #[] o p).state hs
  | deleteOwn o name => exact (quiet.deleteOwn #[] o name).state hs
  | setPrototype o p =>
      refine (preserves_setPrototype ?_ o p).state hs
      exact fun o obj new h found _ _ => tracked.store o obj new h found
  | setPrivate o data => exact (quiet.setPrivate #[] o data).state hs
  | addRoot | setRoot | removeRoot | pin | unpin | addEdge | removeEdge | settle => cases other

/-- A command that cannot collect takes no object out of its slot. -/
theorem Command.reaped_run (held : ClassId → Bool) (h : Heap) {c : Command}
    (still : c.allocates = false) (notSettle : c ≠ .settle) :
    (c.run held h).reaped = h.reaped := by
  have change : ∀ (o : Handle) (f : HostObject → HostObject),
      Preserves (fun h' => h'.reaped = h.reaped) (Heap.change o f) := by
    intro o f
    refine Preserves.of_state fun h' same => ?_
    unfold Heap.change
    split <;> exact same
  by_cases hb : c.isBeside = true
  · exact (c.run_beside held h hb).2.1
  · cases c with
    | deleteOwn o name =>
        have keep : Preserves (fun h' => h'.reaped = h.reaped) (Heap.deleteOwn o name) := by
          refine (preserves_reading _).bind fun old => ?_
          cases old with
          | none => exact Preserves.pure _
          | some old =>
              refine Preserves.ite (fun _ => Preserves.pure _) fun _ => ?_
              exact (change o _).bind fun _ => Preserves.pure _
        exact keep.state rfl
    | setPrototype o p =>
        have keep : Preserves (fun h' => h'.reaped = h.reaped) (Heap.setPrototype o p) :=
          (preserves_reading _).bind fun _ => (preserves_reading _).bind fun _ => change o _
        exact keep.state rfl
    | setPrivate o data => exact (change o _).state rfl
    | settle => exact absurd rfl notSettle
    | collect | allocPlain | allocFunction | allocConstructor | prototypeOf | allocInstance
    | defineOwn | putOwn => cases still
    | _ => exact absurd rfl hb

/-! ### Heaps are intact -/

theorem intact_new (id : HeapId) (limits : Limits) (mode : CollectionMode) :
    Intact (new id limits mode) where
  toConsistent := consistent_new id limits mode
  objectPrototype_valid := by
    rw [isValid_iff_slot]
    exact ⟨rfl, _, rfl, rfl, rfl⟩
  functionPrototype_valid := by
    rw [isValid_iff_slot]
    exact ⟨rfl, _, rfl, rfl, rfl⟩

theorem Intact.congr {h' : Heap} (ok : Intact h) (same : SameTable h h') : Intact h' where
  toConsistent := ok.toConsistent.congr same.slots same.marks same.free same.used
  objectPrototype_valid := by
    rw [same.isValid]
    simpa only [objectPrototype, same.id] using ok.objectPrototype_valid
  functionPrototype_valid := by
    rw [same.isValid]
    simpa only [functionPrototype, same.id] using ok.functionPrototype_valid

/-- Being intact is kept by every step. -/
theorem stable_intact : Stable Intact where
  collect held _ ok := ok.collect held
  place obj h ok := by
    refine ⟨ok.toConsistent.place obj, ?_, ?_⟩
    · rw [isValid_place ok.freeIsEmpty, Bool.or_eq_true]
      refine Or.inr ?_
      simpa only [objectPrototype, place_id] using ok.objectPrototype_valid
    · rw [isValid_place ok.freeIsEmpty, Bool.or_eq_true]
      refine Or.inr ?_
      simpa only [functionPrototype, place_id] using ok.functionPrototype_valid
  store o obj new h found ok := by
    refine ⟨ok.toConsistent.store found new, ?_, ?_⟩
    · rw [isValid_store found]
      exact ok.objectPrototype_valid
    · rw [isValid_store found]
      exact ok.functionPrototype_valid
  beside _ _ same _ ok := ok.congr same

/-- Every command keeps the heap intact. -/
theorem Intact.run (ok : Intact h) (held : ClassId → Bool) (c : Command) :
    Intact (c.run held h) := by
  by_cases hc : c = .settle
  · subst hc
    exact ok.congr ⟨rfl, rfl, rfl, rfl, rfl⟩
  · exact stable_intact.run held hc ok

/-- **Every reachable heap is intact.** -/
theorem Reachable.intact (reachable : Reachable h) : Intact h := by
  induction reachable with
  | new id limits mode => exact intact_new id limits mode
  | step _ held c ih => exact ih.run held c

/-- **The representation of every reachable heap is consistent**: marks, free list,
bytes of slots and the count of bytes are what the slots say. -/
theorem consistent_of_reachable (reachable : Reachable h) : Consistent h :=
  reachable.intact.toConsistent

/-- A heap in which an object got two properties and lost one, and another object
was collected. -/
def oneProperty : Heap :=
  after (new ⟨0⟩ .standard .synchronous)
    (turnsOf [.allocPlain, .allocPlain, .pin (.object ⟨⟨0⟩, 2, 0⟩),
      .defineOwn ⟨⟨0⟩, 2, 0⟩ ⟨Text.ofString "a", .null, .none⟩,
      .putOwn ⟨⟨0⟩, 2, 0⟩ ⟨Text.ofString "b", .null, .none⟩,
      .deleteOwn ⟨⟨0⟩, 2, 0⟩ (Text.ofString "a"), .collect])

/-- There three objects and a property are counted, and one slot is free. -/
theorem consistent_oneProperty :
    Consistent oneProperty ∧ oneProperty.used = 3 * 120 + 64 ∧ oneProperty.free = [3] :=
  ⟨consistent_of_reachable ((Reachable.new ⟨0⟩ .standard .synchronous).after _),
    by decide +kernel, by decide +kernel⟩

end HostObjects.Heap
