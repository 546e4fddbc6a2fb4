import HostObjects.Proofs.View.Access
import HostObjects.Proofs.View.Instance

/-!
# Which function an instance answers with

Several classes of a chain may declare a static function of one name.  An instance is looked at
before its prototypes, so the functions that are found on the instance come first, those of the
first class without an automatic prototype and of all above it; then those on the prototypes.
Among either, the most derived class that declares the name decides (`Class.answering?`).

So a class overrides those above it, with one exception that comes from where functions live:
a class before the first one without a prototype does not override those from that one on
(`Class.Clashes`).  `fresh_instance_answers` says so of every state of a run that leaves
prototypes as they were built, and of every instance that is made in one.
-/

namespace HostObjects

open Heap

/-! ### The order of look-ups -/

namespace Class

variable {c : Class} {name : Text}

/-- The function of the name in the most derived class that declares one. -/
def mostDerived? (c : Class) (name : Text) : Option StaticFunction :=
  c.chain.findSome? fun d => d.function? name

/-- The function of the name that look-ups at an instance find. -/
def answering? (c : Class) (name : Text) : Option StaticFunction :=
  (c.onInstance ++ c.automaticPrefix).findSome? fun d => d.function? name

/-- The name is declared before the first class without an automatic prototype and from that
class on. -/
def Clashes (c : Class) (name : Text) : Prop :=
  (∃ d ∈ c.automaticPrefix, (d.function? name).isSome = true) ∧
    ∃ d ∈ c.onInstance, (d.function? name).isSome = true

theorem answering?_eq_or (c : Class) (name : Text) : c.answering? name =
    (c.onInstance.findSome? fun d => d.function? name).or
      (c.automaticPrefix.findSome? fun d => d.function? name) := List.findSome?_append

theorem mostDerived?_eq_or (c : Class) (name : Text) : c.mostDerived? name =
    (c.automaticPrefix.findSome? fun d => d.function? name).or
      (c.onInstance.findSome? fun d => d.function? name) := by
  rw [mostDerived?, chain_eq_append, List.findSome?_append]

/-- **The most derived class decides**, unless the name is declared on both sides. -/
theorem answering?_eq_mostDerived? (apart : ¬ c.Clashes name) :
    c.answering? name = c.mostDerived? name := by
  rw [answering?_eq_or, mostDerived?_eq_or]
  cases shared : c.automaticPrefix.findSome? fun d => d.function? name with
  | none => simp
  | some entry =>
      cases own : c.onInstance.findSome? fun d => d.function? name with
      | none => simp
      | some entry' =>
          refine absurd ⟨?_, ?_⟩ apart
          · obtain ⟨d, mem, found⟩ := List.exists_of_findSome?_eq_some shared
            exact ⟨d, mem, by rw [found]; rfl⟩
          · obtain ⟨d, mem, found⟩ := List.exists_of_findSome?_eq_some own
            exact ⟨d, mem, by rw [found]; rfl⟩

/-- What some class declares is answered. -/
theorem exists_answering? {derived : StaticFunction}
    (declared : c.mostDerived? name = some derived) :
    ∃ entry, c.answering? name = some entry := by
  rw [mostDerived?_eq_or] at declared
  rw [answering?_eq_or]
  cases own : c.onInstance.findSome? fun d => d.function? name with
  | some entry => exact ⟨entry, rfl⟩
  | none =>
      rw [own, Option.or_none] at declared
      exact ⟨derived, declared⟩

end Class

/-! ### Reading along prototypes -/

variable {σ : Type} {host : Host σ} {s s' : Session σ} {cs : List Class} {c : Class}
  {changed : Handle → Prop} {h : Heap} {o p q parent : Handle} {name : Text}
  {entries : List StaticFunction} {d : Descriptor} {F : Handle → Face}

namespace Heap

/-- The properties that entries declare are found as the entries are. -/
theorem find?_carried {ps : List Property} (carried : List.Forall₂ h.Carries entries ps)
    (name : Text) : (Property.find? ps name).map h.shown =
      (entries.find? fun entry => entry.name == name).map fun entry => entry.shown name := by
  induction carried with
  | nil => rfl
  | @cons entry own entries ps carries rest ih =>
      obtain ⟨f, obj, rfl, found, runs⟩ := carries
      unfold Property.find? at ih ⊢
      by_cases same : entry.name = name
      · subst same
        simp [shown, StaticFunction.shown, content_of_object found,
          HostObject.content_eq_function_iff.mpr runs]
      · simp [same, ih]

/-- A prototype answers with the function of its class. -/
theorem BuiltAs.read (built : h.BuiltAs p parent d.firstFunctions) (name : Text) :
    (h.face p).read name =
      (d.function? name).map fun entry => (.function name entry.call, h.face p) := by
  obtain ⟨obj, found, plain, -, carried⟩ := built
  have own : (h.face p).own? name = (d.function? name).map fun entry => entry.shown name := by
    rw [face_of_object found, own?_map_shown, find?_carried carried, d.firsts_firstFunctions.first]
  have none : (h.face p).function? name = none := by
    rw [Face.function?, face_of_object found, plain]
    rfl
  unfold Face.read
  rw [own, none]
  cases d.function? name <;> rfl

end Heap

/-- Along prototypes the first class that declares the name decides. -/
theorem readOn_prototypes {ds : List Descriptor} {ps : List Handle} {budget : Nat}
    (each : List.Forall₂ (fun d p => (F p).read name =
      (d.function? name).map fun entry => (.function name entry.call, F p)) ds ps)
    (last : (F q).read name = none) (short : ps.length + 1 ≤ budget) :
    (readOn name F budget (ps ++ [q])).1 =
      .ok ((ds.findSome? fun d => d.function? name).map
        fun entry => .function name entry.call) := by
  obtain ⟨budget, rfl⟩ := Nat.exists_eq_add_of_le' (Nat.le_trans (Nat.succ_pos _) short)
  induction each generalizing budget with
  | nil =>
      rw [List.nil_append, readOn, last]
      cases budget <;> rfl
  | @cons d p ds ps read rest ih =>
      rw [List.cons_append, readOn, read, List.findSome?_cons]
      cases d.function? name with
      | some entry => rfl
      | none =>
          have short : ps.length + 1 ≤ budget := Nat.le_of_succ_le_succ short
          obtain ⟨budget, rfl⟩ := Nat.exists_eq_add_of_le' (Nat.le_trans (Nat.succ_pos _) short)
          exact ih budget short

/-! ### Fresh instances -/

/-- An instance of the class to which no property was added yet. -/
def Heap.Fresh (h : Heap) (o : Handle) (c : Class) : Prop :=
  ∃ obj, h.object o = .ok obj ∧ obj.ofClass = some c ∧ obj.properties = []

/-- Reading the property answers, unless too little room is left, with a function object that
runs the host function. -/
def AnswersWith (host : Host σ) (s : Session σ) (o : Handle) (name : Text)
    (call : HostFunction) : Prop :=
  ((View.getProperty host o name s).1 = .error .outOfMemory ∧
    s.heap.limits.maxBytes < s.heap.used + accessBytes) ∨
  ∃ f s', View.getProperty host o name s = (.ok (.object f), s') ∧ s'.heap.Calls f call

theorem exists_of_mem_right {α β : Type} {R : α → β → Prop} {as : List α} {bs : List β} {b : β}
    (all : List.Forall₂ R as bs) (mem : b ∈ bs) : ∃ a ∈ as, R a b := by
  induction all with
  | nil => cases mem
  | cons related _ ih =>
      rcases List.mem_cons.mp mem with rfl | mem
      · exact ⟨_, List.mem_cons_self, related⟩
      · obtain ⟨a, mem, related⟩ := ih mem
        exact ⟨a, List.mem_cons_of_mem _ mem, related⟩

namespace Heap

theorem PrototypeChain.isValid_link {chain : List Handle} {obj : HostObject} {l : Handle}
    (walk : PrototypeChain h o chain) (mem : p ∈ chain) (found : h.object p = .ok obj)
    (link : obj.prototype = some l) : h.isValid l = true := by
  have next := prototype_eq_ok_iff.mpr ⟨obj, found, link⟩
  obtain ⟨rest, walk, -⟩ := walk.suffix mem
  cases walk with
  | last none =>
      rw [next] at none
      cases none
  | link some walk =>
      rw [next] at some
      cases some
      exact walk.isValid_start

/-- A prototype has functions that are there. -/
theorem Carries.isValid {entry : StaticFunction} {own : Property} {l : Handle}
    (carries : h.Carries entry own) (value : own.value = .object l) : h.isValid l = true := by
  obtain ⟨f, obj, rfl, found, -⟩ := carries
  cases value
  exact isValid_of_object found

/-- An instance that nothing was added to, and the prototypes behind it. -/
structure ShowsFresh (h : Heap) (o : Handle) (c : Class) (protos : List Handle) : Prop where
  chain : PrototypeChain h o (o :: (protos ++ [h.objectPrototype]))
  own : h.face o = ⟨some c, []⟩
  shared : List.Forall₂ (fun d p => ∃ parent, h.BuiltAs p parent d.firstFunctions)
    c.automaticPrefix protos
  last : h.face h.objectPrototype = ⟨none, []⟩
  closed : ∀ p ∈ o :: (protos ++ [h.objectPrototype]), ∀ obj, h.object p = .ok obj →
    ∀ l ∈ obj.links, h.isValid l = true

theorem AsBuilt.showsFresh (registry : Registry cs) (ok : AsBuilt cs changed h)
    (unchanged : Unchanged changed c h) (starts : h.StartsAs o c) (fresh : h.Fresh o c) :
    ∃ protos, h.ShowsFresh o c protos := by
  obtain ⟨protos, walk, each⟩ := ok.exists_chain registry unchanged starts
  obtain ⟨obj, found, ofClass, nothing⟩ := fresh
  obtain ⟨root, foundr, plain, -, empty⟩ := ok.root unchanged.last
  have shared := each.imp fun _ _ both => both.2
  -- What is stored on the chain are the functions of the prototypes.
  have stored : ∀ p ∈ o :: (protos ++ [h.objectPrototype]), ∀ pobj, h.object p = .ok pobj →
      ∀ own ∈ pobj.properties, ∃ entry, h.Carries entry own := by
    intro p mem pobj foundp own there
    rcases List.mem_cons.mp mem with rfl | mem
    · cases found.symm.trans foundp
      rw [nothing] at there
      cases there
    rcases List.mem_append.mp mem with mem | mem
    · obtain ⟨d, -, parent, built, foundb, -, -, carried⟩ := exists_of_mem_right shared mem
      cases foundb.symm.trans foundp
      obtain ⟨entry, -, carries⟩ := exists_of_mem_right carried there
      exact ⟨entry, carries⟩
    · cases List.mem_singleton.mp mem
      cases foundr.symm.trans foundp
      rw [empty] at there
      cases there
  refine ⟨protos, walk, ?_, shared, ?_, fun p mem pobj foundp l link => ?_⟩
  · rw [face_of_object found, ofClass, nothing]
    rfl
  · rw [face_of_object foundr, plain, empty]
    rfl
  · rcases HostObject.mem_links_iff.mp link with above | ⟨own, there, value⟩
    · exact walk.isValid_link mem foundp above
    · obtain ⟨entry, carries⟩ := stored p mem pobj foundp own there
      exact carries.isValid value

/-- **What is read at a fresh instance is what look-ups come to first.** -/
theorem ShowsFresh.readOn {protos : List Handle} (shows : h.ShowsFresh o c protos) {budget : Nat}
    (short : protos.length + 2 ≤ budget) :
    (readOn name h.face budget (o :: (protos ++ [h.objectPrototype]))).1 =
      .ok ((c.answering? name).map fun entry => .function name entry.call) := by
  obtain ⟨budget, rfl⟩ := Nat.exists_eq_add_of_le' (Nat.le_trans (Nat.succ_pos _) short)
  have own : (h.face o).read name = (c.onInstance.findSome? fun d => d.function? name).map
      fun entry => (.function name entry.call, (h.face o).add (entry.shown name)) := by
    rw [shows.own]
    rfl
  rw [HostObjects.readOn, own, Class.answering?_eq_or]
  cases c.onInstance.findSome? fun d => d.function? name with
  | some entry => rfl
  | none =>
      refine readOn_prototypes (shows.shared.imp ?_) ?_ (Nat.le_of_succ_le_succ short)
      · rintro d p ⟨parent, built⟩
        exact built.read name
      · rw [shows.last]
        rfl

end Heap

/-- **A fresh instance answers with that function.** -/
theorem answersWith_of_showsFresh {protos : List Handle} (intact : Intact s.heap)
    (shows : s.heap.ShowsFresh o c protos) (silent : c.Silent)
    (short : protos.length + 2 ≤ maxPrototypeChain) {entry : StaticFunction}
    (answering : c.answering? name = some entry) :
    AnswersWith host s o name entry.call := by
  have ready := ready_of_closed intact shows.chain shows.closed
  have quiet : SilentOn s.heap.face (o :: (protos ++ [s.heap.objectPrototype])) := by
    intro p mem c' ofClass
    rcases List.mem_cons.mp mem with rfl | mem
    · rw [shows.own] at ofClass
      cases ofClass
      exact silent
    rcases List.mem_append.mp mem with mem | mem
    · obtain ⟨d, -, parent, obj, found, plain, -⟩ := exists_of_mem_right shows.shared mem
      rw [face_of_object found, plain] at ofClass
      cases ofClass
    · rw [List.mem_singleton.mp mem, shows.last] at ofClass
      cases ofClass
  have step : Follows s.heap.rootedContents o (o :: (protos ++ [s.heap.objectPrototype])) s
      (((Access.get name).map s.heap.storing).on o (o :: (protos ++ [s.heap.objectPrototype]))
        s.heap.face) ((Access.get name).perform host o s) := Access.follows ready quiet nofun
  rw [Access.perform_get] at step
  have outcome : (((Access.get name).map s.heap.storing).on o
      (o :: (protos ++ [s.heap.objectPrototype])) s.heap.face).1 =
        .ok (.value (.function name entry.call)) := by
    simp only [Access.map, Access.on, shows.readOn short, answering]
    rfl
  unfold AnswersWith
  rcases run : View.getProperty host o name s with ⟨e | v, s'⟩ <;> rw [run] at step <;>
    rcases step with ⟨failed, full⟩ | ⟨answer, -⟩
  · cases failed
    exact Or.inl ⟨rfl, full⟩
  · rw [outcome] at answer
    cases answer
  · cases failed
  · rw [outcome] at answer
    obtain ⟨f, obj, rfl, found, runs⟩ :=
      exists_runs_of_content (Reply.value.inj (Except.ok.inj answer))
    exact Or.inr ⟨f, s', rfl, calls_of_runs found runs⟩

/-- Reading a function that some class of the chain declares answers with the one that look-ups
come to first, which is that of the most derived class, unless the name clashes. -/
def AnswersFunctions (host : Host σ) (s : Session σ) (o : Handle) (c : Class) : Prop :=
  ∀ name derived, c.mostDerived? name = some derived → ∃ entry,
    c.answering? name = some entry ∧ (¬ c.Clashes name → entry = derived) ∧
      AnswersWith host s o name entry.call

theorem answersFunctions_of_asBuilt (registry : Registry cs) (ok : AsBuilt cs changed s.heap)
    (mem : c ∈ cs) (unchanged : Unchanged changed c s.heap) (starts : s.heap.StartsAs o c)
    (fresh : s.heap.Fresh o c) (silent : c.Silent) : AnswersFunctions host s o c := by
  intro name derived declared
  obtain ⟨entry, answering⟩ := Class.exists_answering? declared
  obtain ⟨protos, shows⟩ := ok.showsFresh registry unchanged starts fresh
  have short := length_prototypes_le registry mem shows.shared
  refine ⟨entry, answering, fun apart => ?_,
    answersWith_of_showsFresh ok.chained.intact shows silent short answering⟩
  rw [Class.answering?_eq_mostDerived? apart, declared] at answering
  exact (Option.some.inj answering).symm

/-! ### Runs -/

theorem setUp_of_none (none : ∀ d ∈ c.chain, d.callbacks .setUp = none) :
    View.setUp host o c s = (.ok (), s) := by
  have along : ∀ ds : List Descriptor, (∀ d ∈ ds, d.callbacks .setUp = .none) →
      View.setUpAlong host o ds s = (.ok (), s) := by
    intro ds none
    induction ds with
    | nil => rfl
    | cons d ds ih =>
        simp only [View.setUpAlong, none d List.mem_cons_self]
        exact ih fun d mem => none d (List.mem_cons_of_mem _ mem)
  exact along _ fun d mem => none d (List.mem_reverse.mp mem)

/-- An instance is made without set-up callbacks as it is allocated, and rooted. -/
theorem of_makeObject (none : ∀ d ∈ c.chain, d.callbacks .setUp = none)
    {data : Option PrivateData} (made : View.makeObject host (some c) data s = (.ok o, s')) :
    ∃ t, View.makeInstance host c data s = (.ok o, t) ∧ s' = t.rooted o := by
  rcases run : View.makeInstance host c data s with ⟨e | p, t⟩
  · rw [makeObject_of_failed run] at made
    cases made
  · rw [makeObject_of_makeInstance run, setUp_of_none none] at made
    cases made
    exact ⟨t, rfl, rfl⟩

/-- **A static function of an instance is that of the most derived class that declares it among
those whose functions are on the instance, and else among those before them.**  In every state
of a run that leaves prototypes as they were built, an instance to which nothing was added
answers so, also if it was just made. -/
theorem fresh_instance_answers (registry : Registry cs) (id : HeapId) (limits : Limits)
    (mode : CollectionMode) {turns : List Turn}
    (proper : AllProper cs changed (new id limits mode) turns) :
    ∀ h ∈ states (new id limits mode) turns,
      ∀ (σ : Type) (host : Host σ) (s : Session σ), s.heap = h →
        (∀ o c, h.Fresh o c → ¬ changed o → Unchanged changed c h → c.Silent →
          AnswersFunctions host s o c) ∧
        ∀ c ∈ cs, host.Holds cs c s → c.Silent → (∀ d ∈ c.chain, d.callbacks .setUp = none) →
          ∀ data o s', View.makeObject host (some c) data s = (.ok o, s') →
            Unchanged changed c s'.heap → AnswersFunctions host s' o c := by
  rintro h mem σ host s rfl
  have ok := asBuilt_states registry (asBuilt_new cs changed id limits mode) proper _ mem
  refine ⟨fun o c fresh own unchanged silent => ?_,
    fun c known holds silent none data o s' made unchanged => ?_⟩
  · obtain ⟨obj, found, ofClass, nothing⟩ := fresh
    have classOf : s.heap.classOf o = .ok (some c) := by
      rw [Heap.classOf, found]
      exact congrArg Except.ok ofClass
    obtain ⟨known, starts⟩ := ok.startsAs_of_classOf classOf own
    exact answersFunctions_of_asBuilt registry ok known unchanged starts
      ⟨obj, found, ofClass, nothing⟩ silent
  · obtain ⟨t, instanced, rfl⟩ := of_makeObject none made
    obtain ⟨ok', starts⟩ :=
      (meets_makeInstance registry known data s ⟨ok, holds⟩).1 o t instanced
    obtain ⟨proto, _, -, found⟩ := object_makeInstance ok.chained.intact instanced
    exact answersFunctions_of_asBuilt registry (ok'.beside ⟨rfl, rfl, rfl, rfl, rfl⟩ rfl) known
      unchanged starts ⟨_, found, rfl, rfl⟩ silent

theorem idle_leafClass :
    ∀ d ∈ leafClass.chain, d.values = [] ∧ d.callbacks = fun _ => none := by
  simp [leafClass, middleClass, topClass, Class.chain]

/-- The instance answers with the function of its own class and with that of the class above,
and so does a second one. -/
theorem fresh_instance_answers_leaf :
    (∃ f s', View.getProperty idleHost ⟨⟨0⟩, 4, 0⟩ (Text.ofString "l") leafSession =
      (.ok (.object f), s') ∧ s'.heap.Calls f ⟨2⟩) ∧
    ∃ made f s', View.makeObject idleHost (some leafClass) none leafSession =
        (.ok ⟨⟨0⟩, 5, 0⟩, made) ∧
      View.getProperty idleHost ⟨⟨0⟩, 5, 0⟩ (Text.ofString "m") made = (.ok (.object f), s') ∧
      s'.heap.Calls f ⟨1⟩ := by
  have unchanged : ∀ h, Unchanged (fun _ => False) leafClass h :=
    fun h => ⟨fun _ _ _ _ => not_false, not_false⟩
  obtain ⟨there, made⟩ := fresh_instance_answers registry_leafClass ⟨0⟩ .standard .synchronous
    proper_makesLeaf leafSession.heap (after_mem_states _ _) Unit idleHost leafSession rfl
  constructor
  · obtain ⟨entry, answering, -, answers⟩ := there ⟨⟨0⟩, 4, 0⟩ leafClass ⟨_, rfl, rfl, rfl⟩
      not_false (unchanged _) (.of_idle idle_leafClass) (Text.ofString "l") _ rfl
    cases answering
    exact answers.resolve_left fun lacking => absurd lacking.2 (by decide +kernel)
  · have run : View.makeObject idleHost (some leafClass) none leafSession =
        (.ok ⟨⟨0⟩, 5, 0⟩, (View.makeObject idleHost (some leafClass) none leafSession).2) :=
      Prod.ext (by decide +kernel) rfl
    obtain ⟨entry, answering, -, answers⟩ := made leafClass List.mem_cons_self
      (holds_idleHost _ _ _) (.of_idle idle_leafClass)
      (fun d mem => by rw [(idle_leafClass d mem).2]) none ⟨⟨0⟩, 5, 0⟩ _ run (unchanged _)
      (Text.ofString "m") _ rfl
    cases answering
    obtain ⟨f, s', read, calls⟩ :=
      answers.resolve_left fun lacking => absurd lacking.2 (by decide +kernel)
    exact ⟨_, f, s', run, read, calls⟩

/-! ### A function that is not overridden -/

/-- A host that answers a call by whether it asks a given function. -/
def tellingHost (g : HostFunction) : Host Unit :=
  { idleHost with
    answer := fun f r s =>
      match r with
      | .call _ _ _ => (.ok (.bool (f == g)), s)
      | r => (r.unanswered, s) }

/-- An object runs one host function. -/
theorem Heap.Calls.unique {f : Handle} {g g' : HostFunction} (calls : h.Calls f g)
    (calls' : h.Calls f g') : g' = g := by
  have told := (calls Unit (tellingHost g) ⟨h, [], ()⟩ .undefined [] rfl).symm.trans
    (calls' Unit (tellingHost g) ⟨h, [], ()⟩ .undefined [] rfl)
  have same : (g == g) = (g' == g) := Value.bool.inj (Except.ok.inj told)
  simpa using same.symm

/-- The name that both classes declare. -/
def sharedName : Text := Text.ofString "f"

/-- A class without a prototype. -/
def overriddenClass : Class :=
  ⟨{ id := ⟨0⟩, version := 0, name := Text.ofString "Base", automatic := false, values := []
     functions := [⟨sharedName, .none, ⟨0⟩⟩], callbacks := fun _ => none }, []⟩

/-- A class with one, below it. -/
def overridingClass : Class :=
  ⟨{ id := ⟨1⟩, version := 0, name := Text.ofString "Derived", automatic := true, values := []
     functions := [⟨sharedName, .none, ⟨1⟩⟩], callbacks := fun _ => none },
    overriddenClass.chain⟩

theorem registry_overridingClass : Registry [overridingClass, overriddenClass] := by
  have base : Class.define overriddenClass.own none = .ok overriddenClass := by rfl
  have derived : Class.define overridingClass.own (some overriddenClass) = .ok overridingClass := by
    rfl
  exact .cons (.cons .nil (by simp) (by simp) base) (by simp) (by decide) derived

theorem silent_overridingClass : overridingClass.Silent :=
  .of_idle (by simp [overridingClass, overriddenClass, Class.chain])

/-- An instance is made. -/
def makesOverriding : List Turn :=
  [⟨fun _ => true, .prototypeOf overridingClass⟩,
    ⟨fun _ => true, .allocInstance overridingClass none ⟨⟨0⟩, 2, 0⟩⟩]

theorem proper_makesOverriding : AllProper [overridingClass, overriddenClass] (fun _ => False)
    (new ⟨0⟩ .standard .synchronous) makesOverriding := by
  have all : HoldsAbove (fun _ => true) [overridingClass, overriddenClass] := fun _ _ _ _ _ => rfl
  refine ⟨⟨fun _ _ => rfl, trivial, List.mem_cons_self, all, ?_⟩,
    ⟨⟨fun _ _ => rfl, by decide +kernel⟩, trivial, List.mem_cons_self, all, ?_⟩, trivial⟩ <;>
  · intro o edited
    cases edited

/-- A session with the instance. -/
def overridingSession : Session Unit :=
  ⟨(new ⟨0⟩ .standard .synchronous).after makesOverriding, [], ()⟩

/-- **The class below does not override the one above**: a fresh instance answers with the
function of that, though the most derived class declares another one. -/
theorem not_overridden_by_derived :
    overridingClass.mostDerived? sharedName = some ⟨sharedName, .none, ⟨1⟩⟩ ∧
    overridingSession.heap.Fresh ⟨⟨0⟩, 4, 0⟩ overridingClass ∧
    ∃ f s', View.getProperty idleHost ⟨⟨0⟩, 4, 0⟩ sharedName overridingSession =
        (.ok (.object f), s') ∧ s'.heap.Calls f ⟨0⟩ ∧ ¬ s'.heap.Calls f ⟨1⟩ := by
  have ok := asBuilt_states registry_overridingClass
    (asBuilt_new _ _ ⟨0⟩ .standard .synchronous) proper_makesOverriding _ (after_mem_states _ _)
  have fresh : overridingSession.heap.Fresh ⟨⟨0⟩, 4, 0⟩ overridingClass := ⟨_, rfl, rfl, rfl⟩
  obtain ⟨known, starts⟩ := ok.startsAs_of_classOf (o := ⟨⟨0⟩, 4, 0⟩) (c := overridingClass) rfl
    not_false
  have answers : AnswersFunctions idleHost overridingSession ⟨⟨0⟩, 4, 0⟩ overridingClass :=
    answersFunctions_of_asBuilt registry_overridingClass ok known
      ⟨fun _ _ _ _ => not_false, not_false⟩ starts fresh silent_overridingClass
  refine ⟨rfl, fresh, ?_⟩
  obtain ⟨entry, answering, -, answer⟩ := answers sharedName _ rfl
  cases answering
  obtain ⟨f, s', read, calls⟩ :=
    answer.resolve_left fun lacking => absurd lacking.2 (by decide +kernel)
  refine ⟨f, s', read, calls, fun derived => ?_⟩
  cases derived.unique calls

end HostObjects
