import HostObjects.Proofs.Heap.LostValue
import HostObjects.Proofs.View.Access
import HostObjects.Proofs.View.Twin

/-!
# The first read of a static function

A static function that is found on the instance becomes a function object when it is read for
the first time, and a property of the instance from then on.  Nobody should be able to tell
whether that has happened.  On faces accesses cannot (`Access.allOn_get`), and accesses to
objects do what they do on faces, one after the other (`performAll_eq_allOn`), so in a sequence
of accesses nobody can either, up to the identity of function objects
(`first_read_unobservable`).

There is one exception, and it is a mistake of the program: before the read, a write creates
the property with the attributes that it brings, as if there were nothing yet; after it, a
write without attributes keeps those of the function.  A hidden function can so be made
visible or not (`not_first_read_unobservable`).  `Access.Discreet` excludes these writes.
-/

namespace HostObjects

open Heap

variable {σ : Type} {host : Host σ} {s : Session σ} {W : List (Handle × Content)} {o : Handle}
  {chain : List Handle} {F : Handle → Face} {name : Text} {c : Class}
  {storing : Value → Except Fault Content} {accesses : List (Access Value)}

/-! ### Faults on faces -/

theorem hasOn_eq_error {budget : Nat} {e : Fault} (failed : hasOn name F budget chain = .error e) :
    e = .prototypeChainTooDeep := by
  induction chain generalizing budget with
  | nil => cases budget <;> cases failed
  | cons p ps ih =>
      cases budget with
      | zero =>
          cases failed
          rfl
      | succ budget =>
          unfold hasOn at failed
          split at failed
          · cases failed
          · exact ih failed

theorem readOn_eq_error {budget : Nat} {e : Fault}
    (failed : (readOn name F budget chain).1 = .error e) : e = .prototypeChainTooDeep := by
  induction chain generalizing budget with
  | nil => cases budget <;> cases failed
  | cons p ps ih =>
      cases budget with
      | zero =>
          cases failed
          rfl
      | succ budget =>
          unfold readOn at failed
          split at failed
          · cases failed
          · exact ih failed

theorem listedOn_eq_error {budget : Nat} {e : Fault}
    (failed : listedOn F budget chain = .error e) : e = .prototypeChainTooDeep := by
  induction chain generalizing budget with
  | nil => cases budget <;> cases failed
  | cons p ps ih =>
      cases budget with
      | zero =>
          cases failed
          rfl
      | succ budget =>
          unfold listedOn at failed
          cases rest : listedOn F budget ps with
          | ok names =>
              rw [rest] at failed
              cases failed
          | error e' =>
              rw [rest] at failed
              cases failed
              exact ih rest

theorem map_eq_error {α β : Type} {r : Except Fault α} {f : α → β} {e : Fault}
    (failed : r.map f = .error e) : r = .error e := by
  cases r <;> cases failed
  rfl

namespace Access

theorem written?_map {V V' : Type} (g : V → V') (a : Access V) :
    (a.map g).written? = a.written?.map g := by
  cases a <;> rfl

/-- On faces, memory is never lacking. -/
theorem on_ne_outOfMemory {a : Access (Except Fault Content)}
    (storable : a.written? ≠ some (.error .outOfMemory)) :
    (a.on o chain F).1 ≠ .error .outOfMemory := by
  intro failed
  cases a with
  | has name => cases hasOn_eq_error (map_eq_error failed)
  | get name => cases readOn_eq_error (map_eq_error failed)
  | names => cases listedOn_eq_error (map_eq_error failed)
  | delete name => cases failed
  | set name stored attributes =>
      simp only [on] at failed
      split at failed
      · cases failed
      · cases stored with
        | ok content => cases failed
        | error e =>
            cases failed
            exact storable rfl

end Access

/-! ### Sequences of accesses -/

namespace Access

/-- The answers of a sequence of accesses to an object, up to the identity of functions. -/
def performAll (host : Host σ) (o : Handle) :
    List (Access Value) → Session σ → List (Except Fault (Reply Content))
  | [], _ => []
  | a :: as, s =>
    (a.perform host o s).1.map (Reply.map (a.perform host o s).2.heap.content) ::
      performAll host o as (a.perform host o s).2

/-- Accesses do not make classes that ask. -/
theorem silentOn_on (silent : SilentOn F chain) (a : Access (Except Fault Content)) :
    SilentOn (a.on o chain F).2 chain :=
  fun p mem c ofClass => silent p mem c ((ofClass_on o chain F a p).symm.trans ofClass)

/-- The values that the accesses write are at hand. -/
def AllAtHand (W : List (Handle × Content)) (o : Handle) (storing : Value → Except Fault Content)
    (accesses : List (Access Value)) : Prop :=
  ∀ a ∈ accesses, ∀ v, a.written? = some v → AtHand W o v (storing v)

/-- **A sequence of accesses does on objects what it does on faces**, unless memory is
lacking. -/
theorem performAll_eq_allOn (ready : Ready W o chain F s) (silent : SilentOn F chain)
    (atHand : AllAtHand W o storing accesses)
    (enough : .error .outOfMemory ∉ performAll host o accesses s) :
    performAll host o accesses s = allOn o chain (accesses.map (Access.map storing)) F := by
  induction accesses generalizing s F with
  | nil => rfl
  | cons a as ih =>
      unfold performAll at enough ⊢
      obtain ⟨head, tail⟩ := not_or.mp (enough ∘ List.mem_cons.mpr)
      have step : Follows W o chain s ((a.map storing).on o chain F) (a.perform host o s) :=
        follows ready silent (atHand a List.mem_cons_self)
      rcases step with ⟨failed, -⟩ | ⟨answer, after, -⟩
      · rw [failed] at head
        exact absurd rfl head
      · rw [answer, ih after (silentOn_on silent _)
          (fun b mem => atHand b (List.mem_cons_of_mem _ mem)) tail]
        rfl

/-- **Memory is enough** if there is room for a function object at each access. -/
theorem not_outOfMemory_mem_performAll (ready : Ready W o chain F s)
    (silent : SilentOn F chain) (atHand : AllAtHand W o storing accesses)
    (room : s.heap.used + accessBytes * accesses.length ≤ s.heap.limits.maxBytes) :
    .error .outOfMemory ∉ performAll host o accesses s := by
  induction accesses generalizing s F with
  | nil => exact List.not_mem_nil
  | cons a as ih =>
      rw [List.length_cons, Nat.mul_add_one] at room
      have step : Follows W o chain s ((a.map storing).on o chain F) (a.perform host o s) :=
        follows ready silent (atHand a List.mem_cons_self)
      unfold performAll
      rcases step with ⟨-, full⟩ | ⟨answer, after, limits, used⟩
      · omega
      refine List.not_mem_cons_of_ne_of_not_mem ?_ (ih after (silentOn_on silent _)
        (fun b mem => atHand b (List.mem_cons_of_mem _ mem)) ?_)
      · rw [answer]
        refine (on_ne_outOfMemory fun unstorable => ?_).symm
        rw [written?_map, Option.map_eq_some_iff] at unstorable
        obtain ⟨v, written, lacking⟩ := unstorable
        -- What cannot be stored is an object of another heap.
        have stored := atHand a List.mem_cons_self v written
        rw [lacking] at stored
        cases stored
      · rw [limits]
        omega

/-! ### Sequences with a read before them -/

/-- The access does not uncover a function of the class: it is no write of the name with
attributes that are visible, unless instances have no function of the name, or one that is
listed anyway, or one that is read-only. -/
def Discreet {V : Type} (c : Class) (name : Text) : Access V → Prop
  | set m _ attributes => m = name → c.hasInstanceFunction name = false ∨
      name ∈ c.declaredNames ∨ View.hasReadOnlyFunction c name = true ∨ attributes.hidden = true
  | _ => True

theorem Discreet.keeps {f : Face} {a : Access Value} (discreet : a.Discreet c name)
    (ofClass : f.ofClass = some c) (function : f.function? name ≠ none) :
    (a.map storing).Keeps f name := by
  cases a with
  | set m v attributes =>
      intro same
      have found : c.hasInstanceFunction name ≠ false := by
        rw [Face.function?, ofClass] at function
        rw [Class.hasInstanceFunction, ← List.isSome_findSome?]
        simpa [Option.isSome_iff_ne_none] using function
      rw [Face.declared, Face.refusesWrite, ofClass]
      exact (discreet same).resolve_left found
  | _ => trivial

end Access

/-- The value stays what it is while the view has rooted what it has: it is no object, an object
of another heap, or rooted. -/
def Heap.Lasts (h : Heap) (v : Value) : Prop :=
  ∀ f, v = .object f → f.heap ≠ h.id ∨ (.object f ∈ h.stack ∧ h.isValid f = true)

/-- What lasts is at hand. -/
theorem Heap.Lasts.atHand {h : Heap} {v : Value} (lasts : h.Lasts v) (same : h.id = o.heap) :
    AtHand h.rootedContents o v (h.storing v) := by
  cases v with
  | object f =>
      rcases lasts f rfl with foreign | ⟨mem, valid⟩
      · have refused : h.storing (.object f) = .error .foreignHandle := by
          simp only [Heap.storing, checkStorable, check, object, if_pos foreign]
          rfl
        exact refused ▸ .foreign (same ▸ foreign)
      · have storable : h.storing (.object f) = .ok (h.content (.object f)) := by
          simp only [Heap.storing, checkStorable, check_eq_ok_iff.mpr valid]
          rfl
        exact storable ▸ .watched (mem_rootedContents_iff.mpr ⟨mem, valid, rfl⟩)
  | _ => exact .primitive rfl

section Sequences

variable (host : Host σ) (name : Text) (accesses : List (Access Value)) (intact : Intact s.heap)
  (walk : PrototypeChain s.heap o chain)
  (closed : ∀ p ∈ chain, ∀ obj, s.heap.object p = .ok obj →
    ∀ l ∈ obj.links, s.heap.isValid l = true)
  (silent : ∀ p ∈ chain, ∀ c, s.heap.classOf p = .ok (some c) → c.Silent)
  (lasts : ∀ a ∈ accesses, ∀ v, a.written? = some v → s.heap.Lasts v)

include intact walk closed silent lasts

/-- Accesses do what they do on the faces that there are, where the objects on the chain link to
objects that are there. -/
theorem performAll_of_closed :
    (.error .outOfMemory ∉ Access.performAll host o accesses s →
      Access.performAll host o accesses s =
        Access.allOn o chain (accesses.map (Access.map s.heap.storing)) s.heap.face) ∧
    (s.heap.used + accessBytes * accesses.length ≤ s.heap.limits.maxBytes →
      .error .outOfMemory ∉ Access.performAll host o accesses s) := by
  have ready := ready_of_closed intact walk closed
  have atHand : Access.AllAtHand s.heap.rootedContents o s.heap.storing accesses :=
    fun a mem v written => (lasts a mem v written).atHand ready.presents.id
  have silent : SilentOn s.heap.face chain := fun p mem c ofClass =>
    silent p mem c (ofClass ▸ classOf_of_mem ready.presents mem)
  exact ⟨Access.performAll_eq_allOn ready silent atHand,
    Access.not_outOfMemory_mem_performAll ready silent atHand⟩

/-- **Nobody can tell whether a function was read before.**  Reading a property first changes no
answer of a sequence of discreet accesses, as long as there is memory for both; and there is
if there is room for a function object at each access.  That objects link to objects that are
there is so in every run that loses no value. -/
theorem first_read_unobservable
    (discreet : ∀ c, s.heap.classOf o = .ok (some c) → ∀ a ∈ accesses, a.Discreet c name) :
    (.error .outOfMemory ∉ Access.performAll host o accesses s →
      .error .outOfMemory ∉ Access.performAll host o (.get name :: accesses) s →
        Access.performAll host o accesses (View.getProperty host o name s).2 =
          Access.performAll host o accesses s) ∧
    (s.heap.used + accessBytes * (accesses.length + 1) ≤ s.heap.limits.maxBytes →
      .error .outOfMemory ∉ Access.performAll host o accesses s ∧
        .error .outOfMemory ∉ Access.performAll host o (.get name :: accesses) s) := by
  have unread := performAll_of_closed host accesses intact walk closed silent lasts
  have read := performAll_of_closed host (.get name :: accesses) intact walk closed silent
    (List.forall_mem_cons.mpr ⟨nofun, lasts⟩)
  refine ⟨fun enough enough' => ?_, fun room => ⟨unread.2 (Nat.le_trans ?_ room), read.2 room⟩⟩
  · have after : Access.performAll host o accesses (View.getProperty host o name s).2 =
        Access.allOn o chain (accesses.map (Access.map s.heap.storing))
          ((Access.get name).on o chain s.heap.face).2 := by
      have both := read.1 enough'
      rw [Access.performAll, Access.perform_get] at both
      exact (List.cons.inj both).2
    rw [after, unread.1 enough]
    refine allOn_get (or_iff_not_imp_left.mpr fun function a' mem => ?_)
    obtain ⟨a, there, rfl⟩ := List.mem_map.mp mem
    obtain ⟨c, ofClass, -⟩ :=
      Face.exists_mem_of_function? (Option.some_get (Option.isSome_iff_ne_none.mpr function)).symm
    have start : s.heap.classOf o = .ok (some c) := by
      obtain ⟨obj, found⟩ := isValid_iff.mp walk.isValid_start
      rw [face_of_object found] at ofClass
      rw [Heap.classOf, found]
      exact congrArg Except.ok ofClass
    exact (discreet c start a there).keeps ofClass function
  · exact Nat.add_le_add_left (Nat.mul_le_mul_left _ (Nat.le_succ _)) _

end Sequences

/-- The name of a function that is hidden. -/
def hiddenName : Text := Text.ofString "f"

/-- A class without a prototype, with a hidden function. -/
def hidingClass : Class :=
  ⟨{ id := ⟨0⟩, version := 0, name := Text.ofString "Hiding", automatic := false, values := []
     functions := [⟨hiddenName, ⟨false, true, false⟩, ⟨0⟩⟩], callbacks := fun _ => none }, []⟩

/-- A session with an instance. -/
def hidingSession : Session Unit :=
  ⟨(new ⟨0⟩ .standard .synchronous).after
    [⟨fun _ => true, .allocInstance hidingClass none ⟨⟨0⟩, 0, 0⟩⟩], [], ()⟩

/-- The instance. -/
def hidingInstance : Handle := ⟨⟨0⟩, 2, 0⟩

theorem sound_hidingSession : Sound hidingSession.heap := by
  have allowed : Command.Allowed (fun _ => true) (new ⟨0⟩ .standard .synchronous)
      (.allocInstance hidingClass none ⟨⟨0⟩, 0, 0⟩) := ⟨fun _ _ => rfl, rfl⟩
  exact (sound_new ⟨0⟩ .standard .synchronous).run allowed id

theorem chain_hidingInstance :
    PrototypeChain hidingSession.heap hidingInstance [hidingInstance, ⟨⟨0⟩, 0, 0⟩] :=
  .link rfl (.last rfl)

theorem silent_hidingClass : hidingClass.Silent := .of_idle (by simp [hidingClass, Class.chain])

theorem silent_hidingSession : ∀ p ∈ [hidingInstance, ⟨⟨0⟩, 0, 0⟩], ∀ c,
    hidingSession.heap.classOf p = .ok (some c) → c.Silent := by
  intro p mem c ofClass
  rcases List.mem_pair.mp mem with rfl | rfl
  · cases ofClass
    exact silent_hidingClass
  · cases ofClass

/-- Writes a value for the hidden function that is hidden as well, and deletes it. -/
def replacesHidden : List (Access Value) :=
  [.set hiddenName (.bool true) ⟨false, true, false⟩, .names, .delete hiddenName, .get hiddenName]

/-- Whether the function was read before makes no difference to that. -/
theorem first_read_unobservable_hiding :
    Access.performAll idleHost hidingInstance replacesHidden
        (View.getProperty idleHost hidingInstance hiddenName hidingSession).2 =
      Access.performAll idleHost hidingInstance replacesHidden hidingSession := by
  obtain ⟨same, room⟩ := first_read_unobservable idleHost hiddenName replacesHidden
    sound_hidingSession.toIntact chain_hidingInstance (fun p _ => sound_hidingSession.closed p)
    silent_hidingSession
    (by simp [replacesHidden, Access.written?, Lasts])
    (fun c ofClass => by
      cases ofClass
      simp [replacesHidden, Access.Discreet])
  obtain ⟨enough, enough'⟩ := room (by decide +kernel)
  exact same enough enough'

/-- Writes a value for the hidden function that is to be seen, and lists the names. -/
def uncoversHidden : List (Access Value) := [.set hiddenName (.bool true) .none, .names]

/-- **The value shows up among the names, unless the function was read before.** -/
theorem not_first_read_unobservable :
    Access.performAll idleHost hidingInstance uncoversHidden hidingSession =
        [.ok .done, .ok (.names [hiddenName])] ∧
      Access.performAll idleHost hidingInstance uncoversHidden
          (View.getProperty idleHost hidingInstance hiddenName hidingSession).2 =
        [.ok .done, .ok (.names [])] := by
  have unread := performAll_of_closed idleHost uncoversHidden sound_hidingSession.toIntact
    chain_hidingInstance (fun p _ => sound_hidingSession.closed p) silent_hidingSession
    (by simp [uncoversHidden, Access.written?, Lasts])
  have read := performAll_of_closed idleHost (.get hiddenName :: uncoversHidden)
    sound_hidingSession.toIntact chain_hidingInstance (fun p _ => sound_hidingSession.closed p)
    silent_hidingSession (by simp [uncoversHidden, Access.written?, Lasts])
  constructor
  · rw [unread.1 (unread.2 (by decide +kernel))]
    decide +kernel
  · have both := read.1 (read.2 (by decide +kernel))
    rw [Access.performAll, Access.perform_get] at both
    refine (List.cons.inj both).2.trans ?_
    decide +kernel

end HostObjects
