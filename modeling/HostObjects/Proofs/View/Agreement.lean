import HostObjects.Proofs.View.Existence

/-!
# Enumeration and look-up agree with existence

Three operations walk along a prototype chain, each with rules of its own: an enumeration
lists names, an existence test looks for a name and a look-up gives its value.  What they have
in common are the entries of the objects on the chain.  An enumeration without callbacks
lists a name iff one of its entries is visible (`Row.mem_listed`), so it agrees with an
existence test as long as the callbacks for existence are harmless
(`names_agree_with_existence`).

A look-up asks the callbacks that an existence test asks where no class has a `has` callback
(`hasByCallbacks_eq_map`), and what it does then depends on the entries as well.  Only a static
value exists without a value to give, where its getter is missing or does not answer.  So the
two agree object by object (`getAt_of_absent`, `absent_of_getAt`), and along the chain as long
as the callbacks change nothing; they may fail, for where a look-up fails in a callback an
existence test fails before it (`values_agree_with_existence`).
-/

namespace HostObjects

open Heap

variable {σ α : Type} {host : Host σ} {s s' t : Session σ} {o p : Handle} {chain : List Handle}
  {name : Text} {names : List Text} {c : Class} {d : Descriptor} {ds : List Descriptor}

/-! ### Enumerations without callbacks -/

theorem namesAt_of_silent (valid : t.heap.isValid p = true)
    (silent : ∀ d ∈ (t.heap.row p).classes, d.callbacks .names = none) (listed : List Text) :
    View.namesAt host listed p t = (.ok (listed ++ (t.heap.row p).listed []), t) := by
  have own : ∀ before : List Text,
      (do return before ++ (← Action.reading fun h => h.ownNames p) : Action σ (List Text)) t =
        (.ok (before ++ Property.visibleNames (t.heap.row p).properties), t) := by
    intro before
    rw [bind_apply]
    simp only [Action.reading, ownNames_row valid]
    rfl
  have ofClass := classOf_row valid
  unfold View.namesAt
  rw [bind_apply]
  simp only [Action.reading, ofClass]
  cases c? : (t.heap.row p).ofClass with
  | none =>
      rw [Row.listed, Row.declared, c?]
      exact own listed
  | some c =>
      have none : ∀ d ∈ c.chain, d.callbacks .names = none := by
        simpa only [Row.classes, c?, Option.map_some, Option.getD_some] using silent
      have byClass : View.namesByClass host p c listed =
          (pure (listed ++ c.declaredNames) : Action σ (List Text)) := by
        unfold View.namesByClass
        rw [namesByCallbacks_of_none none, c.staticNames_chain]
        rfl
      dsimp only
      rw [byClass, holding_pure, pure_bind, Row.listed, Row.declared, c?]
      exact (own _).trans (by simp)

theorem visitAll_visitNames_of_silent {ps : List Handle}
    (named : ∀ p ∈ ps, ∀ listed,
      View.namesAt host listed p t = (.ok (listed ++ (t.heap.row p).listed []), t))
    (budget : Nat) (listed : List Text) :
    visitAll (visitNames host) budget listed ps t =
      (if ps.length ≤ budget then
        .ok (.inr (listed ++ ps.flatMap fun p => (t.heap.row p).listed []))
      else .error .prototypeChainTooDeep, t) := by
  induction ps generalizing budget listed with
  | nil => cases budget <;> simp [visitAll] <;> rfl
  | cons p ps ih =>
      cases budget with
      | zero => rfl
      | succ budget =>
          rw [visitAll, bind_apply, visitNames_apply, named p List.mem_cons_self]
          dsimp only
          rw [ih fun q mem => named q (List.mem_cons_of_mem _ mem)]
          simp [List.append_assoc]

/-- **An enumeration without callbacks lists the objects of the chain one after the other**, if
there are not too many, and changes nothing. -/
theorem propertyNames_of_silent (walk : PrototypeChain s.heap o chain)
    (silent : ∀ p ∈ chain, ∀ d ∈ (s.heap.row p).classes, d.callbacks .names = none) :
    View.propertyNames host o s =
      (if chain.length ≤ maxPrototypeChain then
        .ok (View.firstOccurrences (chain.flatMap fun p => (s.heap.row p).listed []))
      else .error .prototypeChainTooDeep, s) := by
  have named : ∀ p ∈ chain, ∀ listed, View.namesAt host listed p (s.on o) =
      (.ok (listed ++ ((s.on o).heap.row p).listed []), s.on o) :=
    fun p mem => namesAt_of_silent ((walk.on o).isValid p mem)
      (by rw [s.row_on]; exact silent p mem)
  have walked : walkFrom (visitNames host) [] (some o) (s.on o) = _ :=
    walkFrom_of_still (walk.on o) (fun p mem listed _ t' run => by
      rw [visitNames_apply, named p mem] at run
      exact (Prod.mk.inj run).2.symm) []
  rw [visitAll_visitNames_of_silent named, List.nil_append, s.row_on] at walked
  have run : View.namesOnChain host o (s.on o) =
      (if chain.length ≤ maxPrototypeChain then
        .ok (View.firstOccurrences (chain.flatMap fun p => (s.heap.row p).listed []))
      else .error .prototypeChainTooDeep, s.on o) := by
    show (walkFrom (visitNames host) [] (some o) >>= _) (s.on o) = _
    rw [bind_apply, walked]
    by_cases short : chain.length ≤ maxPrototypeChain
    · simp only [if_pos short]
      rfl
    · simp only [if_neg short]
  have form : View.propertyNames host o = _ :=
    (Invocation.names o).perform_eq_withOperands rfl
  rw [form]
  exact withOperands_of_still walk.isValid_start run fun _ => rfl

/-! ### Enumeration and existence -/

/-- **Enumeration agrees with the existence test.**  If no class on the chain has a names
callback, and the callbacks for existence and look-up are harmless, every name that is listed
exists.  A name that exists and is not listed has hidden entries only, or it has none and a
callback has answered. -/
theorem names_agree_with_existence (walk : PrototypeChain s.heap o chain)
    (silent : ∀ p ∈ chain, ∀ d ∈ (s.heap.row p).classes, d.callbacks .names = none)
    (harmless : host.HarmlessOn s.heap chain name)
    (listed : View.propertyNames host o s = (.ok names, s')) :
    s' = s ∧
      (name ∈ names → (View.hasProperty host o name s).1 = .ok true) ∧
      ((View.hasProperty host o name s).1 = .ok true → name ∉ names →
        (∀ p ∈ chain, ∀ a ∈ (s.heap.row p).entries name, a.hidden = true) ∧
        ((∃ p ∈ chain, (s.heap.row p).entries name ≠ []) ∨
          ∃ p ∈ chain, ∃ d ∈ (s.heap.row p).classes,
            (host.affirms p name d ((s.on o).asking p)).1 = .ok true)) := by
  rw [propertyNames_of_silent walk silent] at listed
  split at listed <;> cases listed
  next short =>
    have exists_iff := hasProperty_iff_of_harmless walk short harmless
    have listed_iff :
        name ∈ View.firstOccurrences (chain.flatMap fun p => (s.heap.row p).listed []) ↔
          ∃ p ∈ chain, ∃ a ∈ (s.heap.row p).entries name, a.hidden = false := by
      rw [View.firstOccurrences, List.mem_eraseDups, List.mem_flatMap]
      simp only [Row.mem_listed]
    refine ⟨rfl, fun mem => ?_, fun found unlisted => ⟨fun p there a entry => ?_, ?_⟩⟩
    · obtain ⟨p, there, a, entry, -⟩ := listed_iff.mp mem
      exact exists_iff.mpr ⟨p, there, Or.inr (List.ne_nil_of_mem entry)⟩
    · rw [← Bool.not_eq_false]
      exact fun visible => unlisted (listed_iff.mpr ⟨p, there, a, entry, visible⟩)
    · obtain ⟨p, there, ⟨d, mem, said⟩ | entries⟩ := exists_iff.mp found
      · exact Or.inr ⟨p, there, d, mem, by rw [said]⟩
      · exact Or.inl ⟨p, there, entries⟩

/-- A host whose `get` callbacks answer for one name. -/
def answeringHost : Host Unit :=
  { idleHost with
    answer := fun _ r s =>
      match r with
      | .get _ name => (.ok (if name = Text.ofString "x" then some .null else none), s)
      | r => (r.unanswered, s) }

/-- A class with an automatic prototype, which hides one of its values, and its parent
without such a prototype. -/
def declaringClass : Class where
  own :=
    { id := ⟨1⟩, version := 0, name := Text.ofString "Declaring", automatic := true
      values := [⟨Text.ofString "v", .none, none, none⟩,
        ⟨Text.ofString "u", ⟨false, true, false⟩, none, none⟩,
        ⟨Text.ofString "u", .none, none, none⟩]
      functions := [⟨Text.ofString "f", .none, ⟨0⟩⟩]
      callbacks := fun op => if op = .get then some ⟨7⟩ else none }
  ancestors :=
    [{ id := ⟨0⟩, version := 0, name := Text.ofString "Base", automatic := false
       values := []
       functions := [⟨Text.ofString "g", .none, ⟨1⟩⟩]
       callbacks := fun _ => none }]

/-- A session with an instance that has a property of its own. -/
def declaringSession : Session Unit :=
  ⟨after (new ⟨0⟩ .standard .synchronous)
    (turnsOf [.prototypeOf declaringClass, .allocInstance declaringClass none ⟨⟨0⟩, 2, 0⟩,
      .putOwn ⟨⟨0⟩, 4, 0⟩ ⟨Text.ofString "own", .null, .none⟩]), [], ()⟩

/-- The instance, its shared prototype and the prototype of plain objects. -/
def declaringChain : List Handle := [⟨⟨0⟩, 4, 0⟩, ⟨⟨0⟩, 2, 0⟩, ⟨⟨0⟩, 0, 0⟩]

theorem walk_declaring : PrototypeChain declaringSession.heap ⟨⟨0⟩, 4, 0⟩ declaringChain :=
  .link (by decide +kernel) (.link (by decide +kernel) (.last (by decide +kernel)))

/-- There the function on the shared prototype is listed and exists.  The name of the hidden
value exists and is not listed, and all its entries are hidden. -/
theorem names_agree_with_existence_declaring :
    View.propertyNames answeringHost ⟨⟨0⟩, 4, 0⟩ declaringSession =
        (.ok (["v", "g", "own", "f"].map Text.ofString), declaringSession) ∧
      (View.hasProperty answeringHost ⟨⟨0⟩, 4, 0⟩ (Text.ofString "f") declaringSession).1 =
        .ok true ∧
      ∀ p ∈ declaringChain, ∀ a ∈ (declaringSession.heap.row p).entries (Text.ofString "u"),
        a.hidden = true := by
  have silent : ∀ p ∈ declaringChain, ∀ d ∈ (declaringSession.heap.row p).classes,
      d.callbacks .names = none := by decide +kernel
  have harmless : ∀ name,
      answeringHost.HarmlessOn declaringSession.heap declaringChain name :=
    fun _ _ _ _ _ _ => ⟨fun _ _ => ⟨_, rfl⟩, fun _ _ => ⟨_, rfl⟩⟩
  have short : declaringChain.length ≤ maxPrototypeChain := by decide
  have listed : View.propertyNames answeringHost ⟨⟨0⟩, 4, 0⟩ declaringSession =
      (.ok (["v", "g", "own", "f"].map Text.ofString), declaringSession) := by
    rw [propertyNames_of_silent walk_declaring silent, if_pos short]
    exact Prod.ext (by decide +kernel) rfl
  obtain ⟨-, shown, -⟩ := names_agree_with_existence walk_declaring silent
    (harmless (Text.ofString "f")) listed
  obtain ⟨-, -, hidden⟩ := names_agree_with_existence walk_declaring silent
    (harmless (Text.ofString "u")) listed
  refine ⟨listed, shown (by decide +kernel), (hidden ?_ (by decide +kernel)).1⟩
  exact (hasProperty_iff_of_harmless walk_declaring short (harmless _)).mpr
    ⟨⟨⟨0⟩, 4, 0⟩, by decide, Or.inr (by decide +kernel)⟩

/-! ### Existence and look-up at one object -/

/-- The action changes nothing, whether it fails or not. -/
def Action.Still (act : Action σ α) : Prop := ∀ t, (act t).2 = t

/-- Without a `has` callback, an existence test asks what a look-up asks. -/
theorem hasByCallbacks_eq_map (none : ∀ d ∈ ds, d.callbacks .has = none) :
    View.hasByCallbacks host p name ds = Option.isSome <$> View.getByCallbacks host p name ds := by
  funext t
  induction ds generalizing t with
  | nil => rfl
  | cons d ds ih =>
      have rest := ih fun d mem => none d (List.mem_cons_of_mem _ mem)
      rw [hasByCallbacks_cons, Host.affirms, none d List.mem_cons_self, View.getByCallbacks]
      cases d.callbacks .get with
      | none => exact rest t
      | some f =>
          dsimp only
          rw [bind_apply, map_apply, map_apply, bind_apply]
          rcases host.answer f (.get p name) t with ⟨e | _ | v, t'⟩
          · rfl
          · exact (rest t').trans (map_apply _ _ _)
          · rfl

theorem still_getByCallbacks
    (still : ∀ d ∈ ds, ∀ f, d.callbacks .get = some f →
      Action.Still (host.answer f (.get p name))) :
    (View.getByCallbacks host p name ds).Still := by
  intro t
  induction ds with
  | nil => rfl
  | cons d ds ih =>
      have rest := ih fun d mem => still d (List.mem_cons_of_mem _ mem)
      rw [View.getByCallbacks]
      cases get : d.callbacks .get with
      | none => exact rest
      | some f =>
          have same := still d List.mem_cons_self f get t
          dsimp only
          rw [bind_apply]
          rcases run : host.answer f (.get p name) t with ⟨e | _ | v, t'⟩ <;>
            rw [run] at same <;> obtain rfl := same
          · rfl
          · exact rest
          · rfl

/-- What a look-up does at an object if no callback has answered and no static value has the
name. -/
def valueWithin (host : Host σ) (p : Handle) (name : Text) (r : Row) : Action σ (Option Value) :=
  match r.functionClasses.findSome? fun d => d.function? name with
  | some entry => some <$> View.instanceFunction host p entry name
  | none => Action.reading fun h => h.getOwn p name

theorem valueWithin_of_absent {r : Row}
    (function : (r.functionClasses.findSome? fun d => d.function? name) = none)
    (own : t.heap.getOwn p name = .ok none) :
    valueWithin host p name r t = (.ok none, t) := by
  rw [valueWithin, function]
  exact Prod.ext own rfl

theorem absent_of_valueWithin {r : Row} (found : valueWithin host p name r t = (.ok none, s')) :
    (r.functionClasses.findSome? fun d => d.function? name) = none ∧
      t.heap.getOwn p name = .ok none := by
  unfold valueWithin at found
  cases function : r.functionClasses.findSome? fun d => d.function? name with
  | some entry =>
      rw [function] at found
      dsimp only at found
      rw [map_apply] at found
      rcases run : View.instanceFunction host p entry name t with ⟨_ | _, _⟩ <;>
        rw [run] at found <;> cases found
  | none =>
      rw [function] at found
      exact ⟨rfl, (Prod.mk.inj found).1⟩

theorem getAt_of_asked {r : Except Fault (Option Value)} (valid : t.heap.isValid p = true)
    (missing : ∀ d ∈ (t.heap.row p).classes, d.value? name = none)
    (asked : View.getByCallbacks host p name (t.heap.row p).classes (t.asking p) =
      (r, t.asking p)) :
    View.getAt host p name t =
      match r with
      | .ok none =>
        Action.holding (t.heap.row p).ofClass.toList (valueWithin host p name (t.heap.row p)) t
      | r => (r, t) := by
  have ofClass := classOf_row valid
  unfold Session.asking at asked
  unfold View.getAt
  rw [bind_apply]
  simp only [Action.reading, ofClass]
  cases c? : (t.heap.row p).ofClass with
  | none =>
      simp only [Row.classes, c?, Option.map_none, Option.getD_none] at asked
      cases (Prod.mk.inj asked).1
      simp only [valueWithin, Row.functionClasses, c?]
      rfl
  | some c =>
      simp only [Row.classes, c?, Option.map_some, Option.getD_some, Option.toList_some]
        at asked missing
      dsimp only
      rw [holding_apply, View.getByClass, bind_apply, asked]
      rcases r with e | _ | v
      · rfl
      · dsimp only
        rw [getByGetters_of_none missing, holding_apply, valueWithin, Row.functionClasses, c?]
        simp only [Option.map_some, Option.getD_some]
        cases c.onInstance.findSome? fun d => d.function? name <;> rfl
      · rfl

section OneObject

variable (valid : t.heap.isValid p = true)
  (noHas : ∀ d ∈ (t.heap.row p).classes, d.callbacks .has = none)
  (still : ∀ d ∈ (t.heap.row p).classes, ∀ f, d.callbacks .get = some f →
    Action.Still (host.answer f (.get p name)))

include valid noHas still

/-- The `get` callbacks decide the existence test before the entries do. -/
theorem hasAt_of_still : ∃ r,
    View.getByCallbacks host p name (t.heap.row p).classes (t.asking p) = (r, t.asking p) ∧
      View.hasAt host p name t =
        (r.map fun v => v.isSome || decide ((t.heap.row p).entries name ≠ []), t) := by
  have same := still_getByCallbacks still (t.asking p)
  rcases run : View.getByCallbacks host p name (t.heap.row p).classes (t.asking p) with ⟨r, t'⟩
  rw [run] at same
  obtain rfl := same
  refine ⟨r, rfl, ?_⟩
  have asked : View.hasByCallbacks host p name (t.heap.row p).classes (t.asking p) =
      (r.map Option.isSome, t.asking p) := by
    rw [hasByCallbacks_eq_map noHas, map_apply, run]
    cases r <;> rfl
  rw [hasAt_of_asked valid asked]
  cases r <;> rfl

/-- **Where an existence test finds nothing, a look-up finds nothing.** -/
theorem getAt_of_absent (absent : View.hasAt host p name t = (.ok false, t)) :
    View.getAt host p name t = (.ok none, t) := by
  obtain ⟨r, asked, has⟩ := hasAt_of_still valid noHas still
  rw [has] at absent
  rcases r with e | _ | v
  · cases absent
  · have entries : (t.heap.row p).entries name = [] := by
      simpa [Except.map] using (Prod.mk.inj absent).1
    obtain ⟨missing, function, own⟩ := Row.entries_eq_nil_iff.mp entries
    have read : t.heap.getOwn p name = .ok none := by
      rw [Heap.getOwn_row valid, own]
      rfl
    rw [getAt_of_asked valid missing asked]
    dsimp only
    rw [holding_apply, valueWithin_of_absent (t := t.hold _) function read]
    rfl
  · cases absent

/-- **Where a look-up finds nothing, so does an existence test**, unless a static value has the
name. -/
theorem absent_of_getAt (missing : ∀ d ∈ (t.heap.row p).classes, d.value? name = none)
    (nothing : View.getAt host p name t = (.ok none, s')) :
    View.hasAt host p name t = (.ok false, t) ∧ s' = t := by
  obtain ⟨r, asked, has⟩ := hasAt_of_still valid noHas still
  rw [getAt_of_asked valid missing asked] at nothing
  rcases r with e | _ | v
  · cases nothing
  · dsimp only at nothing
    rw [holding_apply] at nothing
    obtain ⟨function, read⟩ := absent_of_valueWithin (Prod.ext (Prod.mk.inj nothing).1 rfl)
    rw [valueWithin_of_absent function read] at nothing
    have own : t.heap.getOwn p name = .ok none := read
    rw [Heap.getOwn_row valid, Except.ok.injEq, Option.map_eq_none_iff] at own
    rw [has, Row.entries_eq_nil_iff.mpr ⟨missing, function, own⟩]
    exact ⟨rfl, (Prod.mk.inj nothing).2.symm⟩
  · cases nothing

end OneObject

/-! ### Existence and look-up along the chain -/

theorem visitValue_eq_inr_iff :
    visitValue host name () p t = (.ok (.inr ()), s') ↔
      View.getAt host p name t = (.ok none, s') := by
  unfold visitValue
  rw [bind_apply]
  rcases View.getAt host p name t with ⟨e | _ | v, t'⟩ <;>
    constructor <;> intro run <;> cases run <;> rfl

/-- A look-up visits the chain, if the visits that find nothing change nothing. -/
theorem getProperty_of_still (walk : PrototypeChain s.heap o chain)
    (still : ∀ p ∈ chain, ∀ t, View.getAt host p name (s.on o) = (.ok none, t) → t = s.on o) :
    (View.getProperty host o name s).1 =
      (visitAll (visitValue host name) maxPrototypeChain () chain (s.on o)).1.map
        (Sum.elim (fun v => v) fun _ => Value.undefined) := by
  have walked : walkFrom (visitValue host name) () (some o) (s.on o) = _ :=
    walkFrom_of_still (walk.on o)
      (fun p mem _ _ t run => still p mem t (visitValue_eq_inr_iff.mp run)) ()
  have form : View.getProperty host o name = _ :=
    (Invocation.get o name).perform_eq_withOperands rfl
  rw [form, withOperands_fst walk.isValid_start]
  show (View.lookUp host o name (s.on o)).1 = _
  rw [lookUp_apply, walked]
  rcases visitAll (visitValue host name) maxPrototypeChain () chain (s.on o) with
    ⟨e | v | ⟨⟩, t⟩ <;> rfl

/-- The `get` callbacks on the chain change nothing. -/
def Host.StillOn (host : Host σ) (h : Heap) (chain : List Handle) (name : Text) : Prop :=
  ∀ p ∈ chain, ∀ d ∈ (h.row p).classes, ∀ f,
    d.callbacks .get = some f → Action.Still (host.answer f (.get p name))

section WholeChain

variable (walk : PrototypeChain s.heap o chain)
  (noHas : ∀ p ∈ chain, ∀ d ∈ (s.heap.row p).classes, d.callbacks .has = none)
  (still : host.StillOn s.heap chain name)

include walk noHas still

theorem still_hasAt (mem : p ∈ chain) : (View.hasAt host p name (s.on o)).2 = s.on o := by
  have noHas := noHas p mem
  have still := still p mem
  rw [← s.row_on o] at noHas still
  obtain ⟨r, -, has⟩ := hasAt_of_still ((walk.on o).isValid p mem) noHas still
  rw [has]

/-- Objects at which an existence test goes on are objects at which a look-up goes on. -/
theorem getAt_of_visitHas (mem : p ∈ chain)
    (run : visitHas host name () p (s.on o) = (.ok (.inr ()), s.on o)) :
    View.getAt host p name (s.on o) = (.ok none, s.on o) := by
  have noHas := noHas p mem
  have still := still p mem
  rw [← s.row_on o] at noHas still
  exact getAt_of_absent ((walk.on o).isValid p mem) noHas still (visitHas_eq_inr_iff.mp run)

/-- Unless a static value has the name, it is the other way round as well. -/
theorem hasAt_of_getAt (mem : p ∈ chain)
    (noValues : ∀ d ∈ (s.heap.row p).classes, d.value? name = none)
    (nothing : View.getAt host p name (s.on o) = (.ok none, t)) :
    View.hasAt host p name (s.on o) = (.ok false, s.on o) ∧ t = s.on o := by
  have noHas := noHas p mem
  have still := still p mem
  rw [← s.row_on o] at noHas still noValues
  exact absent_of_getAt ((walk.on o).isValid p mem) noHas still noValues nothing

theorem getProperty_of_absent (absent : (View.hasProperty host o name s).1 = .ok false) :
    (View.getProperty host o name s).1 = .ok .undefined := by
  have same := fun p => still_hasAt (p := p) walk noHas still
  rw [hasProperty_of_still walk same] at absent
  rcases test : visitAll (visitHas host name) maxPrototypeChain () chain (s.on o) with
    ⟨e | _ | _, t⟩ <;> rw [test] at absent <;> cases absent
  obtain ⟨short, unanswered⟩ :=
    unanswered_of_visitAll (fun p mem => still_visitHas (same p mem)) test
  have nothing : ∀ p ∈ chain, View.getAt host p name (s.on o) = (.ok none, s.on o) :=
    fun p mem => getAt_of_visitHas walk noHas still mem (unanswered p mem)
  have visited : visitAll (visitValue host name) maxPrototypeChain () (chain ++ []) (s.on o) = _ :=
    visitAll_append (fun p mem => visitValue_eq_inr_iff.mpr (nothing p mem)) short
  rw [List.append_nil] at visited
  rw [getProperty_of_still walk fun p mem t run => by
    rw [nothing p mem] at run
    exact (Prod.mk.inj run).2.symm, visited]
  cases maxPrototypeChain - chain.length <;> rfl

theorem found_of_getProperty (present : (View.hasProperty host o name s).1 = .ok true)
    (noValues : ∀ p ∈ chain, ∀ d ∈ (s.heap.row p).classes, d.value? name = none) {v : Value}
    (found : (View.getProperty host o name s).1 = .ok v) :
    ∃ before p after, chain = before ++ p :: after ∧
      (∀ q ∈ before, View.getAt host q name (s.on o) = (.ok none, s.on o)) ∧
      (View.getAt host p name (s.on o)).1 = .ok (some v) := by
  have same := fun p => still_hasAt (p := p) walk noHas still
  rw [hasProperty_of_still walk same] at present
  rcases test : visitAll (visitHas host name) maxPrototypeChain () chain (s.on o) with
    ⟨e | _ | _, t⟩ <;> rw [test] at present <;> cases present
  obtain ⟨before, p, after, rfl, short, unanswered, answer⟩ :=
    answered_of_visitAll (fun p mem => still_visitHas (same p mem)) test
  have nothing : ∀ q ∈ before, View.getAt host q name (s.on o) = (.ok none, s.on o) :=
    fun q mem => getAt_of_visitHas walk noHas still (List.mem_append_left _ mem) (unanswered q mem)
  refine ⟨before, p, after, rfl, nothing, ?_⟩
  rw [getProperty_of_still walk fun q mem t run =>
      (hasAt_of_getAt walk noHas still mem (noValues q mem) run).2,
    visitAll_append (fun q mem => visitValue_eq_inr_iff.mpr (nothing q mem)) (Nat.le_of_lt short)]
    at found
  obtain ⟨budget, left⟩ := Nat.exists_eq_succ_of_ne_zero (Nat.sub_ne_zero_of_lt short)
  rw [left, visitAll, bind_apply, visitValue, bind_apply] at found
  rcases run : View.getAt host p name (s.on o) with ⟨e | _ | w, t'⟩ <;> rw [run] at found
  · cases found
  · -- Here the existence test has found something.
    have there : p ∈ before ++ p :: after := by simp
    obtain ⟨no, -⟩ := hasAt_of_getAt walk noHas still there (noValues p there) run
    rw [visitHas_eq_inl_iff, no] at answer
    cases answer
  · cases found
    rfl

end WholeChain

/-- **Look-up agrees with the existence test.**  If no class on the chain has a `has` callback
and its `get` callbacks change nothing, an existence test changes nothing.  If it says no, a
look-up gives `undefined`.  If it says yes and no static value has the name, whatever a look-up
gives was found at an object of the chain. -/
theorem values_agree_with_existence (walk : PrototypeChain s.heap o chain)
    (noHas : ∀ p ∈ chain, ∀ d ∈ (s.heap.row p).classes, d.callbacks .has = none)
    (still : host.StillOn s.heap chain name) :
    (View.hasProperty host o name s).2 = s ∧
    ((View.hasProperty host o name s).1 = .ok false →
      (View.getProperty host o name s).1 = .ok .undefined) ∧
    ((View.hasProperty host o name s).1 = .ok true →
      (∀ p ∈ chain, ∀ d ∈ (s.heap.row p).classes, d.value? name = none) →
      ∀ v, (View.getProperty host o name s).1 = .ok v →
        ∃ before p after, chain = before ++ p :: after ∧
          (∀ q ∈ before, View.getAt host q name (s.on o) = (.ok none, s.on o)) ∧
          (View.getAt host p name (s.on o)).1 = .ok (some v)) := by
  refine ⟨?_, getProperty_of_absent walk noHas still, fun present noValues v found => ?_⟩
  · rw [hasProperty_of_still walk fun p mem => still_hasAt walk noHas still mem]
  · exact found_of_getProperty walk noHas still present noValues found

/-- There a look-up of a name that nothing answers for gives `undefined`, and the name that the
callback answers for is found at the instance. -/
theorem values_agree_with_existence_declaring :
    (View.getProperty answeringHost ⟨⟨0⟩, 4, 0⟩ (Text.ofString "y") declaringSession).1 =
        .ok .undefined ∧
      ∀ v, (View.getProperty answeringHost ⟨⟨0⟩, 4, 0⟩ (Text.ofString "x")
          declaringSession).1 = .ok v →
        ∃ before p after, declaringChain = before ++ p :: after ∧
          (∀ q ∈ before, View.getAt answeringHost q (Text.ofString "x")
            (declaringSession.on ⟨⟨0⟩, 4, 0⟩) = (.ok none, declaringSession.on ⟨⟨0⟩, 4, 0⟩)) ∧
          (View.getAt answeringHost p (Text.ofString "x")
            (declaringSession.on ⟨⟨0⟩, 4, 0⟩)).1 = .ok (some v) := by
  have noHas : ∀ p ∈ declaringChain, ∀ d ∈ (declaringSession.heap.row p).classes,
      d.callbacks .has = none := by decide +kernel
  have still : ∀ name, answeringHost.StillOn declaringSession.heap declaringChain name :=
    fun _ _ _ _ _ _ _ _ => rfl
  have has := fun name p (mem : p ∈ declaringChain) =>
    still_hasAt walk_declaring noHas (still name) mem
  obtain ⟨-, absent, -⟩ := values_agree_with_existence walk_declaring noHas
    (still (Text.ofString "y"))
  obtain ⟨-, -, present⟩ := values_agree_with_existence walk_declaring noHas
    (still (Text.ofString "x"))
  refine ⟨absent ?_, present ?_ (by decide +kernel)⟩
  · rw [hasProperty_of_still walk_declaring (has _)]
    decide +kernel
  · rw [hasProperty_of_still walk_declaring (has _)]
    decide +kernel

end HostObjects
