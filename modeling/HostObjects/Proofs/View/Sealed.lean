import HostObjects.Proofs.Heap.AsBuilt
import HostObjects.Proofs.Heap.Retain
import HostObjects.Proofs.View.ClassPrototype

/-!
# Properties that views leave alone

The operations of a view change an own property if they write or delete it, and not otherwise.
What else they do to own properties they do to new ones: a function becomes a property of its
instance only where the instance has none of the name, and a constructor gets its prototype while
it is new.  So an action leads from one heap to the next by commands that leave the property alone
(`Action.Respects`), if it is an operation that does not write or delete it, or is refused to
(`Invocation.Leaves`), and if the functions of the host act that way.

A property that is read-only and permanent refuses all writes and deletions.  It stays as it is as
long as its object is there, and what it names stays there, unless it is defined anew
(`sealed_property_stays`).  The prototype of a constructor is of that kind.
-/

namespace HostObjects

open Heap

variable {σ α β : Type} {host : Host σ} {s s' : Session σ} {o q f proto : Handle} {p r : Property}
  {start h h' : Heap} {name : Text}

/-! ### Actions that leave a property alone -/

/-- The action leads from heap to heap by commands that do not change the property. -/
def Action.Respects (o : Handle) (p : Property) (act : Action σ α) : Prop :=
  ∀ s, Intact s.heap → Respectful o p s.heap (act s).2.heap

/-- The functions of the host do not change the property. -/
def Host.Respects (o : Handle) (p : Property) (host : Host σ) : Prop :=
  ∀ {α : Type} (f : HostFunction) (r : Request α), (host.answer f r).Respects o p

theorem Action.Respects.keeps {act : Action σ α} (respects : act.Respects o p)
    (ok : Intact start) : Preserves (fun s => Respectful o p start s.heap) act :=
  Preserves.of_state fun s calm => calm.trans (respects s (calm.within.intact ok))

theorem Host.Respects.keeps (respects : host.Respects o p) (ok : Intact start) :
    host.Keeps fun s => Respectful o p start s.heap :=
  fun f r => (respects f r).keeps ok

theorem Action.respects_of_keeps {act : Action σ α}
    (keep : ∀ start, Intact start → Preserves (fun s => Respectful o p start s.heap) act) :
    act.Respects o p :=
  fun s ok => (keep s.heap ok).state .refl

theorem Action.Respects.bind {act : Action σ α} {next : α → Action σ β}
    (first : act.Respects o p) (second : ∀ a, (next a).Respects o p) :
    (act >>= next).Respects o p :=
  Action.respects_of_keeps fun _ ok => (first.keeps ok).bind fun a => (second a).keeps ok

/-- A command that may collect, and letting go of what it removed. -/
theorem Heap.Respectful.settle (calm : Respectful o p start s.heap) {c : Command}
    (still : c.movesStack = false)
    (other : s.heap.ownProperty o p.name = .ok (some p) → ¬ c.Changes o p) :
    Respectful o p start (Action.settle host
      { s with heap := c.run (Action.heldOutside host s) s.heap }).heap := by
  have ran := calm.step (Action.heldOutside host s) (c.staysAbove_of_still still _) other
  rw [settle_eq]
  exact ran.step (fun _ => false) (c := .settle) trivial fun _ => Command.not_changes rfl

theorem tender_respectful (host : Host σ) (start : Heap) :
    Tender host fun s => Respectful o p start s.heap where
  allocating _ _ allocates other calm :=
    calm.settle (Command.still_of_allocates allocates) fun _ => Command.not_changes other
  editing _ c _ _ still other calm :=
    calm.step _ (c.staysAbove_of_still still _) fun _ => Command.not_changes other
  discard _ _ calm := calm
  holding _ _ calm := calm

theorem Heap.Respectful.push (calm : Respectful o p start h) (v : Value) :
    Respectful o p start (h.pushRoot v) :=
  calm.step (fun _ => false) (c := .pushRoot v) trivial fun _ => Command.not_changes rfl

/-! ### Definitions of missing properties -/

/-- The object, if it is there, has no property of the name. -/
def Heap.Lacks (h : Heap) (q : Handle) (name : Text) : Prop :=
  ∀ p, h.ownProperty q name ≠ .ok (some p)

theorem Heap.ownProperty_of_getOwn (missing : h.getOwn q name = .ok none) :
    h.ownProperty q name = .ok none := by
  unfold getOwn at missing
  cases own : h.ownProperty q name with
  | error e =>
      rw [own] at missing
      cases missing
  | ok found =>
      rw [own] at missing
      rw [Option.map_eq_none_iff.mp (Except.ok.inj missing)]

/-- What is new is no object that was there, and gives none a property. -/
theorem Heap.IsNew.lacks (isNew : IsNew f h h') (missing : h.ownProperty q name = .ok none) :
    h'.Lacks q name := by
  have other : q ≠ f := by
    rintro rfl
    exact Bool.false_ne_true (isNew.invalid.symm.trans (isValid_of_ownProperty missing))
  intro p there
  obtain ⟨obj, found⟩ := isValid_iff.mp (isValid_of_ownProperty there)
  rw [ownProperty_of_object found] at there
  rw [ownProperty_of_object (isNew.others q obj other found)] at missing
  exact absurd (missing.symm.trans there) (by simp)

/-- A definition where the property is missing changes no property that is there. -/
theorem meets_defineOwn_respectful (q : Handle) (r : Property) :
    Meets (fun s => Respectful o p start s.heap ∧ s.heap.Lacks q r.name)
      (Action.allocating host fun held => defineOwn held q r)
      (fun _ s => Respectful o p start s.heap) (fun s => Respectful o p start s.heap) := by
  refine Meets.of_state fun s ⟨calm, lacks⟩ => ?_
  refine calm.settle (c := .defineOwn q r) rfl fun there => ?_
  rintro ⟨rfl, same⟩
  exact lacks p (same ▸ there)

/-- While a function is made, no object gets a property that it lacks. -/
theorem meets_makeFunction_lacks (ok : Intact start) (call : HostFunction) :
    Meets (fun s => Respectful o p start s.heap ∧ s.heap.ownProperty q name = .ok none)
      (View.makeFunction host name call)
      (fun _ s => Respectful o p start s.heap ∧ s.heap.Lacks q name)
      (fun s => Respectful o p start s.heap) := by
  have kept : Preserves (fun s => Respectful o p start s.heap) (View.makeFunction host name call) :=
    preserves_makeFunction (keeps_allocFunction (tender_respectful host start) name call)
      fun _ v calm => calm.push v
  have before := Meets.imp
    (fun (s : Session σ) (both : _ ∧ s.heap.ownProperty q name = .ok none) => both.1)
    (fun _ _ calm => calm) (fun _ calm => calm) kept
  refine before.also fun s f s' ⟨calm, missing⟩ run => ?_
  unfold View.makeFunction at run
  obtain ⟨f', t, made, run⟩ := of_bind_ok run
  obtain ⟨h, alloc, same, -⟩ := of_allocating made
  cases run
  have lacks := (isNew_allocFunction (calm.within.intact ok) alloc).lacks missing
  intro p' there
  have there : t.heap.ownProperty q name = .ok (some p') := there
  rw [ownProperty, same.object] at there
  exact lacks p' there

theorem lingering_respectful (host : Host σ) (ok : Intact start) :
    Lingering host start.stack.size fun s => Respectful o p start s.heap where
  toTender := tender_respectful host start
  high _ calm := calm.within.le_size
  push _ v calm := calm.push v
  cut _ height le calm :=
    calm.step (fun _ => false) (c := .cutStack height) le fun _ => Command.not_changes rfl
  instanceFunction q entry name := by
    have read : Meets (fun s => Respectful o p start s.heap)
        (Action.reading fun h => h.getOwn q name : Action σ (Option Value))
        (fun found s => Respectful o p start s.heap ∧
          (found = none → s.heap.ownProperty q name = .ok none))
        (fun s => Respectful o p start s.heap) := by
      refine fun s calm => ⟨fun found s' run => ?_, fun e s' run => ?_⟩
      · obtain ⟨own, rfl⟩ := Prod.mk.inj run
        refine ⟨calm, ?_⟩
        rintro rfl
        exact ownProperty_of_getOwn own
      · exact (Prod.mk.inj run).2 ▸ calm
    refine read.bind fun found => ?_
    cases found with
    | some v => exact Meets.pure fun _ both => both.1
    | none =>
        have made : Meets (fun s => Respectful o p start s.heap ∧
            s.heap.ownProperty q name = .ok none) (View.makeFunction host name entry.call)
            (fun _ s => Respectful o p start s.heap ∧ s.heap.Lacks q name)
            (fun s => Respectful o p start s.heap) :=
          meets_makeFunction_lacks ok entry.call
        refine (made.bind fun f => ?_).imp (fun _ both => ⟨both.1, both.2 rfl⟩)
          (fun _ _ calm => calm) fun _ calm => calm
        exact (meets_defineOwn_respectful q ⟨name, .object f, entry.attributes⟩).bind fun _ =>
          Meets.pure fun _ calm => calm

/-! ### Operations -/

/-- A write of another property, or one that is refused. -/
theorem preserves_writeOwn_respectful
    (refused : q = o → r.name = p.name → p.attributes.readOnly = true) :
    Preserves (fun s => Respectful o p start s.heap) (View.writeOwn host q r) := by
  refine Preserves.bind (keeps_allocating fun s calm => ?_) fun _ => Preserves.pure _
  refine calm.settle (c := .putOwn q r) rfl fun _ => ?_
  rintro ⟨here, same, writable⟩
  rw [refused here same] at writable
  cases writable

theorem preserves_deleteOwn_respectful
    (refused : q = o → name = p.name → p.attributes.permanent = true) :
    Preserves (fun s => Respectful o p start s.heap)
      (Action.editing (deleteOwn q name) : Action σ Bool) := by
  refine keeps_editing fun s calm => calm.step (fun _ => false) (c := .deleteOwn q name) trivial ?_
  rintro - ⟨here, same, removable⟩
  rw [refused here same] at removable
  cases removable

namespace Invocation

/-- The operation does not write or delete the property, or the property refuses that.  A key
that is a value may come to any name. -/
def Leaves (o : Handle) (p : Property) : {α : Type} → Invocation α → Prop
  | _, set q n _ _ => q = o → n = p.name → p.attributes.readOnly = true
  | _, setIndex q i _ => q = o → Text.ofNat i.toNat = p.name → p.attributes.readOnly = true
  | _, setKeyed q _ _ _ => q = o → p.attributes.readOnly = true
  | _, delete q n => q = o → n = p.name → p.attributes.permanent = true
  | _, deleteKeyed q _ => q = o → p.attributes.permanent = true
  | _, _ => True

theorem leaves_of_sealed (readOnly : p.attributes.readOnly = true)
    (permanent : p.attributes.permanent = true) (q : Invocation α) : q.Leaves o p := by
  cases q with
  | set | setIndex => exact fun _ _ => readOnly
  | setKeyed => exact fun _ => readOnly
  | delete => exact fun _ _ => permanent
  | deleteKeyed => exact fun _ => permanent
  | _ => trivial

theorem Leaves.ownKept {q : Invocation α} (leaves : q.Leaves o p) :
    q.OwnKept host fun s => Respectful o p start s.heap := by
  cases q with
  | set | setIndex => exact preserves_writeOwn_respectful leaves
  | setKeyed => exact fun _ => preserves_writeOwn_respectful fun here _ => leaves here
  | delete => exact preserves_deleteOwn_respectful leaves
  | deleteKeyed => exact fun _ => preserves_deleteOwn_respectful fun here _ => leaves here
  | _ => trivial

/-- **An operation changes a property only if it writes or deletes it**, if the functions of the
host do not change it. -/
theorem Leaves.respects {q : Invocation α} (leaves : q.Leaves o p)
    (respects : host.Respects o p) : (q.perform host).Respects o p :=
  Action.respects_of_keeps fun _ ok =>
    q.keeps_performing (lingering_respectful host ok) (respects.keeps ok) leaves.ownKept

end Invocation

/-- A constructor gets its prototype while it has no properties. -/
theorem respects_makeConstructor (host : Host σ) (c : Option Class)
    (construct : Option HostFunction) : (View.makeConstructor host c construct).Respects o p := by
  refine Action.respects_of_keeps fun start ok => ?_
  have made : Meets (fun s => Respectful o p start s.heap)
      (Action.allocating host fun held => do
        let h ← get
        alloc held ⟨some h.functionPrototype, none, .constructor c construct, [], none⟩)
      (fun f s => Respectful o p start s.heap ∧ s.heap.Lacks f View.prototypeKey)
      (fun s => Respectful o p start s.heap) := by
    refine Meets.also (keeps_allocating fun s calm => ?_) fun s f s' calm run => ?_
    · rw [get_bind_apply]
      exact calm.settle (c := .allocConstructor c construct) rfl fun _ => Command.not_changes rfl
    · obtain ⟨h, placed, same, -⟩ := of_allocating run
      rw [get_bind_apply] at placed
      have found := (known_of_alloc (calm.within.intact ok) placed).found _ List.mem_cons_self
      intro p' there
      rw [ownProperty, same.object, found] at there
      cases there
  refine (keeps_constructedPrototype (tender_respectful host start) c).bind fun proto =>
    made.bind fun f => ?_
  have pushed : Meets
      (fun s => Respectful o p start s.heap ∧ s.heap.Lacks f View.prototypeKey)
      (Action.push (.object f) : Action σ Unit)
      (fun _ s => Respectful o p start s.heap ∧ s.heap.Lacks f View.prototypeKey)
      (fun s => Respectful o p start s.heap) := by
    rintro s ⟨calm, lacks⟩
    refine ⟨fun _ s' run => ?_, fun _ _ run => ?_⟩ <;> cases run
    exact ⟨calm.push _, lacks⟩
  refine pushed.bind fun _ => Meets.bind ?_ fun _ => Meets.pure fun _ calm => calm
  exact meets_defineOwn_respectful f ⟨View.prototypeKey, .object proto, .constructorPrototype⟩

/-- What views do apart from the operations on an object leaves the property alone. -/
structure Host.Minds (host : Host σ) (o : Handle) (p : Property) : Prop where
  makeObject : ∀ c data, (View.makeObject host c data).Respects o p
  makeFunction : ∀ name call, (View.makeFunction host name call).Respects o p
  makeConstructor : ∀ c construct, (View.makeConstructor host c construct).Respects o p
  classPrototype : ∀ c, (View.classPrototype host c).Respects o p
  setPrototype : ∀ q link, (View.setPrototype q link : Action σ Unit).Respects o p
  replacePrivate : ∀ q data, (View.replacePrivate host q data).Respects o p
  managedValue : ∀ m, (Action.managedValue m : Action σ (Option Value)).Respects o p
  collect : (Action.collect host).Respects o p

theorem Host.Respects.minds (respects : host.Respects o p) : host.Minds o p := by
  have each : ∀ {α : Type} {act : Action σ α}, (∀ start : Heap,
      Lingering host start.stack.size (fun s => Respectful o p start s.heap) →
      (host.Keeps fun s => Respectful o p start s.heap) →
      Preserves (fun s => Respectful o p start s.heap) act) → act.Respects o p :=
    fun keep => Action.respects_of_keeps fun start ok =>
      keep start (lingering_respectful host ok) (respects.keeps ok)
  constructor
  · exact fun c data => each fun _ lingering lawful => keeps_makeObject lingering lawful c data
  · exact fun name call => each fun _ lingering _ => keeps_makeFunction lingering name call
  · exact respects_makeConstructor host
  · exact fun c => each fun _ lingering _ => keeps_classPrototype lingering.toTender c
  · exact fun q link => each fun _ lingering _ => keeps_setPrototype lingering.toTender q link
  · exact fun q data => each fun _ lingering _ => keeps_replacePrivate lingering.toTender q data
  · exact fun m => each fun _ lingering _ => keeps_managedValue lingering m
  · exact each fun _ lingering _ => keeps_collect lingering.toTender

/-! ### Constructors -/

/-- A class that an operation holds on to is held, and so are those above it. -/
theorem heldOutside_of_mem {c : Class} (mem : c ∈ s.holding) {d : Descriptor}
    (above : d ∈ c.chain) : Action.heldOutside host s d.id = true := by
  have inherits : c.inheritsFrom d.id = true := Class.inheritsFrom_iff.mpr ⟨d, above, rfl⟩
  rw [Action.heldOutside, Bool.or_eq_true, List.any_eq_true]
  exact Or.inl ⟨c, mem, inherits⟩

/-- The chain of the class that a constructor makes instances of, if it is of a class. -/
def madeChain : Option Class → List Descriptor
  | some c => c.chain
  | none => []

/-- The prototype of the instances is that of the class, which is held. -/
structure Session.Starts (made : Option Class) (proto : Handle) (s : Session σ) : Prop where
  held : ∀ c, made = some c → c ∈ s.holding
  start : s.heap.chainPrototype? (madeChain made) = some proto

theorem Session.Starts.inUse {made : Option Class} (starts : s.Starts made proto)
    (host : Host σ) : ∀ d ∈ madeChain made, Action.heldOutside host s d.id = true := by
  intro d mem
  cases made with
  | none => cases mem
  | some c => exact heldOutside_of_mem (starts.held c rfl) mem

/-- Operations that may collect leave the prototype to the class. -/
theorem preserves_allocating_starts {made : Option Class} {act : (ClassId → Bool) → HeapM α}
    (keep : ∀ held, (∀ d ∈ madeChain made, held d.id = true) →
      Preserves (fun h => h.chainPrototype? (madeChain made) = some proto) (act held)) :
    Preserves (Session.Starts made proto) (Action.allocating host act) := by
  refine Preserves.of_state fun s starts => ?_
  have after := (keep _ (starts.inUse host)).state starts.start
  rw [allocating_apply, settle_eq]
  refine ⟨starts.held, ?_⟩
  rwa [chainPrototype?_congr rfl rfl]

theorem keeps_allocConstructor_start {made : Option Class} {construct : Option HostFunction}
    (held : ClassId → Bool) (inUse : ∀ d ∈ madeChain made, held d.id = true) :
    Preserves (fun h => h.chainPrototype? (madeChain made) = some proto)
      (do
        let h ← get
        alloc held ⟨some h.functionPrototype, none, .constructor made construct, [], none⟩) := by
  refine Preserves.get.bind fun _ => (tabled_start inUse).alloc fun c mem => ?_
  cases made with
  | none => cases mem
  | some made =>
      rw [List.mem_singleton.mp mem]
      exact inUse

theorem Heap.storable_of_defineOwn {held : ClassId → Bool}
    (run : defineOwn held o r h = (.ok (), h')) : h.checkStorable r.value = .ok () := by
  unfold defineOwn at run
  obtain ⟨⟨⟩, storable, -⟩ := of_reading_bind_ok run
  exact storable

theorem starts_of_constructedPrototype {made : Option Class}
    (held : ∀ c, made = some c → c ∈ s.holding)
    (asked : View.constructedPrototype host made s = (.ok proto, s')) : s'.Starts made proto := by
  cases made with
  | none =>
      cases asked
      exact ⟨nofun, rfl⟩
  | some c =>
      have run : Action.allocating host (fun held => prototypeOf held c.chain) s =
          (.ok proto, s') := asked
      rw [allocating_apply, settle_eq] at run
      obtain ⟨answer, rfl⟩ := Prod.mk.inj run
      refine ⟨held, ?_⟩
      have found : (prototypeOf (Action.heldOutside host s) c.chain s.heap).2.chainPrototype?
          c.chain = some proto :=
        instancePrototype?_prototypeOf (Prod.ext answer rfl)
      exact (congrFun (chainPrototype?_congr rfl rfl) c.chain).trans found

/-- A prototype that is there stays while room is made, if its class is held. -/
theorem Heap.MadeRoom.isValid_start {held : ClassId → Bool} {ds : List Descriptor}
    (room : MadeRoom held h h') (ok : Intact h) (inUse : ∀ d ∈ ds, held d.id = true)
    (start : h.chainPrototype? ds = some proto) (valid : h.isValid proto = true) :
    h'.isValid proto = true := by
  have alive : Alive held h (.object proto) := by
    cases ds with
    | nil =>
        cases start
        exact .objectPrototype
    | cons d ds =>
        cases automatic : d.automatic with
        | false =>
            rw [chainPrototype?_plain automatic] at start
            cases start
            exact .objectPrototype
        | true =>
            rw [chainPrototype?_automatic automatic] at start
            exact .classPrototype (mem_of_classPrototype? start)
              (classInUse_iff.mpr (Or.inl (inUse d List.mem_cons_self))) valid
  obtain ⟨obj, found⟩ := isValid_iff.mp valid
  exact isValid_of_object (room.object_of_alive ok alive found)

/-- **A constructor that is made names the prototype that it was made with**, and that is there. -/
theorem constructor_names_prototype {made : Option Class} (ok : Intact s.heap)
    (held : ∀ c, made = some c → c ∈ s.holding) {construct : Option HostFunction}
    (run : View.makeConstructor host made construct s = (.ok f, s')) :
    ∃ proto t, View.constructedPrototype host made s = (.ok proto, t) ∧
      s'.heap.ownProperty f View.prototypeKey =
        .ok (some ⟨View.prototypeKey, .object proto, .constructorPrototype⟩) ∧
      s'.heap.isValid proto = true := by
  have whole := run
  unfold View.makeConstructor at run
  obtain ⟨proto, t, asked, run⟩ := of_bind_ok run
  refine ⟨proto, t, asked, ?_, ?_⟩
  · obtain ⟨link, found⟩ := object_constructed ok asked whole
    rw [ownProperty, found]
    rfl
  have tender := (enduring_within host s.heap).toSturdy.tender
  have within := (keeps_constructedPrototype tender made).state .refl
  rw [asked] at within
  have starts := starts_of_constructedPrototype held asked
  obtain ⟨f', t₁, placed, run⟩ := of_bind_ok run
  replace starts : t₁.Starts made proto :=
    (preserves_allocating_starts keeps_allocConstructor_start t starts).1 f' t₁ placed
  obtain ⟨h₁, alloc, same₁, -⟩ := of_allocating placed
  rw [get_bind_apply] at alloc
  have intact := (known_of_alloc (within.intact ok) alloc).intact.congr same₁
  obtain ⟨⟨⟩, t₂, pushed, run⟩ := of_bind_ok run
  obtain ⟨⟨⟩, t₃, defined, run⟩ := of_bind_ok run
  obtain ⟨h₂, define, same₂, -⟩ := of_allocating defined
  cases run
  cases pushed
  have storable := storable_of_defineOwn define
  obtain ⟨roomy, obj, room, found, rfl⟩ := of_defineOwn_ok define
  rw [same₂.isValid, isValid_store found]
  exact room.isValid_start (intact.congr ⟨rfl, rfl, rfl, rfl, rfl⟩) (starts.inUse host) starts.start
    (check_eq_ok_iff.mp storable)

/-! ### Sealed properties -/

/-- From the heap on the property stays as it is, and what it names stays there, in every run in
which the object of the property stays and nothing changes the property. -/
def Heap.PropertyLasts (h : Heap) (o : Handle) (p : Property) : Prop :=
  ∀ turns : List Turn, Respected o p h turns → Stays o h turns →
    (h.after turns).ownProperty o p.name = .ok (some p) ∧
    ∀ v, p.value = .object v → h.isValid v = true → (h.after turns).isValid v = true

/-- **A read-only and permanent property stays as it is** as long as its object is there, and what
it names stays there.  No command changes it but its definition, and neither does any operation of
a view, if the functions of the host leave it alone: nothing that views define of their own accord
is this property.  The prototype of a constructor, which is made while its class is held, is such a
property from the start, and it is there. -/
theorem sealed_property_stays (readOnly : p.attributes.readOnly = true)
    (permanent : p.attributes.permanent = true) (o : Handle) :
    (∀ h, Intact h → h.ownProperty o p.name = .ok (some p) → h.PropertyLasts o p) ∧
    (∀ h (turns : List Turn),
      (∀ t ∈ turns, ∀ r, t.command = .defineOwn o r → r.name ≠ p.name) →
        Respected o p h turns) ∧
    (∀ (σ : Type) (host : Host σ), host.Respects o p →
      (∀ (α : Type) (q : Invocation α), (q.perform host).Respects o p) ∧ host.Minds o p) ∧
    ∀ (σ : Type) (host : Host σ) (s s' : Session σ) (made : Option Class)
      (construct : Option HostFunction) (f : Handle), Intact s.heap →
      (∀ c, made = some c → c ∈ s.holding) →
      View.makeConstructor host made construct s = (.ok f, s') →
      ∃ proto t, View.constructedPrototype host made s = (.ok proto, t) ∧
        s'.heap.ownProperty f View.prototypeKey =
          .ok (some ⟨View.prototypeKey, .object proto, .constructorPrototype⟩) ∧
        s'.heap.isValid proto = true ∧
        s'.heap.PropertyLasts f ⟨View.prototypeKey, .object proto, .constructorPrototype⟩ := by
  refine ⟨fun h ok there turns => ownProperty_after ok there, fun h turns => ?_,
    fun σ host respects => ⟨fun α q => ?_, respects.minds⟩, ?_⟩
  · refine fun others => respected_of_not_changes fun t mem changes => ?_
    obtain ⟨r, defines, same⟩ := (Command.changes_iff_of_sealed readOnly permanent).mp changes
    exact others t mem r defines same
  · exact (q.leaves_of_sealed readOnly permanent).respects respects
  · intro σ host s s' made construct f ok held run
    obtain ⟨proto, t, asked, own, valid⟩ := constructor_names_prototype ok held run
    have within := (keeps_makeConstructor (enduring_within host s.heap) made construct).state .refl
    rw [run] at within
    exact ⟨proto, t, asked, own, valid, fun turns => ownProperty_after (within.intact ok) own⟩

/-- A session in which a constructor of a class was made. -/
def constructorSession : Session Unit :=
  (View.makeConstructor idleHost (some toolClass) none
    ⟨new ⟨0⟩ .standard .synchronous, [toolClass], ()⟩).2

/-- The constructor is kept, its prototype is to be overwritten and deleted, the class is let go
of and a collection runs. -/
def attacksPrototype : List Turn :=
  turnsOf [.pin (.object ⟨⟨0⟩, 5, 0⟩),
    .putOwn ⟨⟨0⟩, 5, 0⟩ ⟨View.prototypeKey, .null, ⟨false, true, false⟩⟩,
    .deleteOwn ⟨⟨0⟩, 5, 0⟩ View.prototypeKey, .cutStack 0, .collect]

/-- There the constructor keeps its prototype. -/
theorem sealed_property_stays_constructor :
    (constructorSession.heap.after attacksPrototype).ownProperty ⟨⟨0⟩, 5, 0⟩ View.prototypeKey =
      .ok (some ⟨View.prototypeKey, .object ⟨⟨0⟩, 2, 0⟩, .constructorPrototype⟩) ∧
    (constructorSession.heap.after attacksPrototype).isValid ⟨⟨0⟩, 2, 0⟩ = true := by
  obtain ⟨-, others, -, constructors⟩ := sealed_property_stays
    (p := ⟨View.prototypeKey, .object ⟨⟨0⟩, 2, 0⟩, .constructorPrototype⟩) rfl rfl ⟨⟨0⟩, 5, 0⟩
  have made : View.makeConstructor idleHost (some toolClass) none
      ⟨new ⟨0⟩ .standard .synchronous, [toolClass], ()⟩ =
        (.ok ⟨⟨0⟩, 5, 0⟩, constructorSession) :=
    Prod.ext (by decide +kernel) (by rw [constructorSession])
  obtain ⟨proto, t, asked, own, valid, lasts⟩ := constructors Unit idleHost _ _ _ _ _
    (Reachable.new _ _ _).intact (fun c same => Option.some.inj same ▸ List.mem_cons_self) made
  have first : (View.constructedPrototype idleHost (some toolClass)
      ⟨new ⟨0⟩ .standard .synchronous, [toolClass], ()⟩).1 = .ok ⟨⟨0⟩, 2, 0⟩ := by decide +kernel
  rw [asked] at first
  cases first
  have respected : Respected ⟨⟨0⟩, 5, 0⟩
      ⟨View.prototypeKey, .object ⟨⟨0⟩, 2, 0⟩, .constructorPrototype⟩ constructorSession.heap
      attacksPrototype := by
    refine others _ _ fun t mem r defines => ?_
    simp only [attacksPrototype, turnsOf, List.map_cons, List.map_nil, List.mem_cons,
      List.not_mem_nil, or_false] at mem
    rcases mem with rfl | rfl | rfl | rfl | rfl <;> cases defines
  obtain ⟨own, values⟩ := lasts _ respected (by decide +kernel)
  exact ⟨own, values _ rfl valid⟩

end HostObjects
