import HostObjects.Proofs.Script.Watch
import HostObjects.Script.Run

/-!
# Heaps at hand

A block that works on a heap takes it from its owner and gives it back at the end.
What is expected of the heap meanwhile is part of what is watched: `Watch.above` adds
a heap at hand to a watch.

A block of heap steps leaves the stack of its heap alone (`Watch.Still`); a view may
push and cut above the height at which it was opened (`Watch.Open`).  A watch of either
kind is a property of sessions that operations keep (`Still.sturdy`, `Open.enduring`),
and the blocks lead from one watch to another: a group's heap comes to hand with the
stack that is expected of it, and goes back with the same one (`keeps_withGroup`), also
when a view was opened on it in between (`keeps_withView`).
-/

namespace HostObjects.Script

open Heap Play

variable {α : Type} {K : Watch} {w : World} {base : Nat} {I : Heap → Prop}

/-! ### Watching the heap at hand -/

/-- Commands that leave the stack alone keep what is expected of the heap at hand. -/
structure Watch.Still (K : Watch) : Prop where
  atHand : ∀ l rest, K.lent (l :: rest) → ¬ K.lent []
  run : ∀ held (c : Command) l rest cs, c.movesStack = false → K.lent (l :: rest) →
    K.lent (⟨c.run held l.heap, cs⟩ :: rest)
  holding : ∀ l rest cs, K.lent (l :: rest) → K.lent (⟨l.heap, cs⟩ :: rest)

/-- Changes of the stack above a height keep what is expected of the heap at hand. -/
structure Watch.Open (K : Watch) (base : Nat) : Prop extends K.Still where
  high : ∀ l rest, K.lent (l :: rest) → base ≤ l.heap.stack.size
  push : ∀ l rest v, K.lent (l :: rest) → K.lent (⟨l.heap.pushRoot v, l.holding⟩ :: rest)
  cut : ∀ l rest height, base ≤ height → K.lent (l :: rest) →
    K.lent (⟨l.heap.cutStack height, l.holding⟩ :: rest)

/-- The world in which an action has the heap at hand. -/
def worldOf (s : Session World) : World :=
  { s.host with lent := ⟨s.heap, s.holding⟩ :: s.host.lent }

/-- What is expected while an action has the heap at hand. -/
def Watch.session (K : Watch) (s : Session World) : Prop := K.Holds (worldOf s)

/-- A change of the world that keeps whatever is watched may happen around the heap at
hand. -/
theorem Watch.session_around {s : Session World} {f : World → World}
    (keep : ∀ {K : Watch} {w}, K.Holds w → K.Holds (f w)) (hs : K.session s) :
    K.session { s with host := f s.host } := by
  -- The heap at hand is not in the world that changes, so neither is what is expected of it.
  have around : ({ K with lent := fun ls => ls = s.host.lent } : Watch).Holds s.host :=
    ⟨rfl, fun t g found => ⟨(hs.groups t g found).heap, (hs.groups t g found).away⟩,
      hs.books_congr rfl⟩
  have after := keep around
  refine ⟨?_, fun t g found => ?_, after.books_congr rfl⟩
  · show K.lent (⟨s.heap, s.holding⟩ :: (f s.host).lent)
    rw [after.lent]
    exact hs.lent
  · exact ⟨(after.groups t g found).heap, (after.groups t g found).away⟩

/-- The classes held and the heap at hand, changed by a command. -/
theorem Watch.session_change {s : Session World} {h : Heap} {cs : List Class}
    (hs : K.session s) (atHand : K.lent (⟨h, cs⟩ :: s.host.lent)) :
    K.session { s with heap := h, holding := cs } :=
  ⟨atHand, hs.groups, hs.books_congr rfl⟩

/-- A watch that heap steps keep is a property of sessions that lasts through them. -/
theorem Watch.Still.sturdy (still : K.Still) {host : Host World}
    (scripted : host.toReclaimer = reclaimer) : Sturdy host K.session where
  allocating s c allocates hs := by
    have run := still.run (Action.heldOutside host s) c ⟨s.heap, s.holding⟩ s.host.lent
      s.holding (c.still_of_allocates allocates) hs.lent
    have ran := session_change hs run
    unfold Action.settle
    dsimp only
    split
    · exact ran
    · -- The dead objects are handed over, and their finalizers run.
      next r rs _ =>
        have handed := session_change ran
          (still.run (fun _ => false) .settle _ s.host.lent s.holding rfl run)
        rw [scripted]
        exact session_around (fun hw => hw.letAllGo _) handed
  editing s c _ _ moves hs :=
    session_change hs (still.run (fun _ => false) c _ s.host.lent s.holding moves hs.lent)
  discard s data hs := by
    rw [scripted]
    exact session_around (fun hw => hw.discard data) hs
  holding s cs hs := session_change hs (still.holding _ s.host.lent cs hs.lent)

/-- A watch that views keep is a property of sessions that lasts through what they do. -/
theorem Watch.Open.enduring (opened : K.Open base) {host : Host World}
    (scripted : host.toReclaimer = reclaimer) : Enduring host base K.session where
  toSturdy := opened.toStill.sturdy scripted
  high s hs := opened.high _ s.host.lent hs.lent
  push s v hs := session_change hs (opened.push _ s.host.lent v hs.lent)
  cut s height le hs := session_change hs (opened.cut _ s.host.lent height le hs.lent)

/-! ### Acting and playing -/

/-- Without a heap at hand there is nothing to act on. -/
theorem acting_nil (act : Action World α) (none : w.lent = []) :
    acting act w = (.error (.refusal .badStep), w) := by
  cases w
  cases none
  rfl

theorem acting_cons (act : Action World α) {l : Lent} {rest : List Lent}
    (some : w.lent = l :: rest) :
    acting act w =
      ((act ⟨l.heap, l.holding, { w with lent := rest }⟩).1.mapError .fault,
        worldOf (act ⟨l.heap, l.holding, { w with lent := rest }⟩).2) := by
  cases w
  cases some
  rfl

theorem world_cons {l : Lent} {rest : List Lent} (some : w.lent = l :: rest) :
    worldOf ⟨l.heap, l.holding, { w with lent := rest }⟩ = w := by
  cases w
  cases some
  rfl

/-- An action on the heap at hand. -/
theorem keeps_acting {act : Action World α} (keep : Preserves K.session act) :
    Preserves K.Holds (acting act) := by
  refine Preserves.of_state fun w hw => ?_
  cases atHand : w.lent with
  | nil =>
      rw [acting_nil act atHand]
      exact hw
  | cons l rest =>
      have before : K.session ⟨l.heap, l.holding, { w with lent := rest }⟩ := by
        unfold Watch.session
        rwa [world_cons atHand]
      rw [acting_cons act atHand]
      exact keep.state before

/-- A look at the heap at hand. -/
theorem meets_viewing {I : World → Prop} (f : Heap → α) :
    Meets I (viewing f) (fun a w => I w ∧ ∃ l rest, w.lent = l :: rest ∧ a = f l.heap) I := by
  intro w hw
  unfold viewing Play.reading
  cases atHand : w.lent with
  | nil =>
      rw [acting_nil _ atHand]
      refine ⟨fun a w' run => ?_, fun e w' run => ?_⟩
      · cases run
      · cases run
        exact hw
  | cons l rest =>
      rw [acting_cons _ atHand]
      refine ⟨fun a w' run => ?_, fun e w' run => ?_⟩
      · cases run
        exact ⟨world_cons atHand ▸ hw, l, rest, rfl, rfl⟩
      · cases run

/-- Reading from the heap at hand changes nothing. -/
theorem keeps_readingAtHand {I : World → Prop} (f : Heap → Except Fault α) :
    Preserves I (Play.reading f) := by
  refine Preserves.of_state fun w hw => ?_
  unfold Play.reading
  cases atHand : w.lent with
  | nil =>
      rw [acting_nil _ atHand]
      exact hw
  | cons l rest =>
      rw [acting_cons _ atHand]
      show I (worldOf ⟨l.heap, l.holding, { w with lent := rest }⟩)
      rwa [world_cons atHand]

/-- Steps in the middle of an action. -/
theorem keeps_playing (still : K.Still) {act : StateM World α} (keep : Maintains K.Holds act) :
    Preserves K.session (playing act) := by
  refine Preserves.of_state fun s hs => ?_
  have after := keep (worldOf s) hs
  show K.session (let w := (act (worldOf s)).2
    let l := w.lent.headD default
    ⟨l.heap, l.holding, { w with lent := w.lent.tail }⟩)
  generalize (act (worldOf s)).2 = w at after ⊢
  refine ⟨?_, after.groups, after.books_congr rfl⟩
  show K.lent (⟨(w.lent.headD default).heap, (w.lent.headD default).holding⟩ :: w.lent.tail)
  cases atHand : w.lent with
  | nil => exact absurd (atHand ▸ after.lent) (still.atHand _ s.host.lent hs.lent)
  | cons l rest => exact atHand ▸ after.lent

/-! ### Parts of steps -/

theorem meets_need {I : World → Prop} (o : Option α) :
    Meets I (need o) (fun a w => I w ∧ o = some a) I := by
  cases o with
  | some a => exact Meets.pure fun _ hw => ⟨hw, rfl⟩
  | none => exact Meets.throw fun _ hw => hw

theorem keeps_need {I : World → Prop} (o : Option α) : Preserves I (need o) := by
  cases o with
  | some a => exact Preserves.pure a
  | none => exact Preserves.throw _

theorem meets_groupOf {I : World → Prop} (t : HeapId) :
    Meets I (groupOf t) (fun g w => I w ∧ w.groups[t]? = some g) I := by
  refine Meets.bind Meets.get fun seen => ?_
  refine Meets.imp (fun _ hs => hs) ?_ ?_ (meets_need seen.groups[t]?)
  · rintro g w ⟨⟨hw, rfl⟩, found⟩
    exact ⟨hw, found⟩
  · exact fun _ hs => hs.1

/-- A change of the world, on the way from one state of things to another. -/
theorem meets_modify {I J E : World → Prop} {f : World → World}
    (step : ∀ w, I w → J (f w)) : Meets I (modify f : Play Unit) (fun _ => J) E := by
  refine fun w hw => ⟨fun a w' run => ?_, fun e w' run => ?_⟩
  · cases run
    exact step w hw
  · cases run

/-! ### A heap comes to hand -/

/-- The watch with one more heap at hand; the group that it is from, if any, is without
it. -/
def Watch.lending (K : Watch) (I : Heap → Prop) (taken : Option HeapId) : Watch :=
  { K with
    lent := fun ls => ∃ l rest, ls = l :: rest ∧ I l.heap ∧ K.lent rest
    away := fun u => taken = some u ∨ K.away u }

theorem Watch.still_lending {taken : Option HeapId}
    (run : ∀ held h (c : Command), c.movesStack = false → I h → I (c.run held h)) :
    (K.lending I taken).Still where
  atHand := by
    rintro _ _ - ⟨l, rest, eq, -⟩
    exact List.cons_ne_nil l rest eq.symm
  run := by
    rintro held c l rest cs moves ⟨l, rest, ⟨⟩, atHand, others⟩
    exact ⟨_, rest, rfl, run held l.heap c moves atHand, others⟩
  holding := by
    rintro l rest cs ⟨l, rest, ⟨⟩, atHand, others⟩
    exact ⟨_, rest, rfl, atHand, others⟩

theorem Watch.open_lending {taken : Option HeapId} (above : UnbrokenAbove base I) :
    (K.lending I taken).Open base where
  toStill := still_lending fun held h c moves =>
    above.run held h c (c.staysAbove_of_still moves base)
  high := by
    rintro l rest ⟨l, rest, ⟨⟩, atHand, others⟩
    exact above.high l.heap atHand
  push := by
    rintro l rest v ⟨l, rest, ⟨⟩, atHand, others⟩
    exact ⟨_, rest, rfl, above.run (fun _ => false) l.heap (.pushRoot v) trivial atHand, others⟩
  cut := by
    rintro l rest height le ⟨l, rest, ⟨⟩, atHand, others⟩
    exact ⟨_, rest, rfl, above.run (fun _ => false) l.heap (.cutStack height) le atHand, others⟩

/-- A heap that may be in its group: it has the stack of the start. -/
def Watch.AtRest (K : Watch) (start h : Heap) : Prop := K.kept h ∧ start.Extends #[] h

/-- A heap under a view: it has more on its stack. -/
def Watch.InView (K : Watch) (start h : Heap) : Prop :=
  K.kept h ∧ ∃ top, start.Extends top h

theorem Watch.still_atRest (K : Watch) (start : Heap) (taken : Option HeapId) :
    (K.lending (K.AtRest start) taken).Still :=
  still_lending fun held h c moves ⟨kept, stack⟩ =>
    ⟨K.unbroken held h c kept, stack.run held moves⟩

theorem Watch.open_inView (K : Watch) (start : Heap) (taken : Option HeapId) :
    (K.lending (K.InView start) taken).Open start.stack.size :=
  open_lending
    { run := fun held h c stays ⟨kept, stack⟩ =>
        ⟨K.unbroken held h c kept, (unbrokenAbove_extends start).run held h c stays stack⟩
      high := fun h hs => (unbrokenAbove_extends start).high h hs.2 }

section Lending

variable {start : Heap} {taken : Option HeapId} {t u : HeapId} {g : Group Task}

theorem Watch.Home.lend (home : K.Home u g) : (K.lending I taken).Home u g :=
  ⟨home.heap, fun missing => Or.inr (home.away missing)⟩

theorem Watch.Home.unlend (home : (K.lending I taken).Home u g) (other : taken ≠ some u) :
    K.Home u g :=
  ⟨home.heap, fun missing => (home.away missing).resolve_left other⟩

/-- The heap of a group that has it, with the releases that waited for it. -/
theorem Watch.Holds.lend {h : Heap} (hw : K.Holds w) (found : w.groups[t]? = some g)
    (there : g.heap = some h) (applied : start = Release.applyAll h g.pending) :
    (K.lending (K.AtRest start) (some t)).Holds
      { w with
        groups := w.groups.insert t { g with heap := none, pending := [] }
        lent := ⟨start, []⟩ :: w.lent } := by
  have kept : K.kept start :=
    applied ▸ K.kept_applyAll g.pending ((hw.groups t g found).heap h there).1
  have around : (K.lending (K.AtRest start) (some t)).Holds
      { w with lent := ⟨start, []⟩ :: w.lent } :=
    ⟨⟨_, w.lent, rfl, ⟨kept, Array.append_empty.symm⟩, hw.lent⟩,
      fun u g found => (hw.groups u g found).lend, hw.books_congr rfl⟩
  refine around.insert ⟨fun _ there => (by cases there), fun _ => Or.inl rfl⟩ ?_
  show (w.groups[t]?).map Group.tasks = _
  rw [found]
  rfl

/-- The heap goes back to its group, unless the group is gone. -/
theorem Watch.Holds.giveBack (hw : (K.lending (K.AtRest start) (some t)).Holds w)
    (rest : K.rest start.stack) :
    K.Holds ({ w with lent := w.lent.tail }.changeGroup t
      (Group.giveBack (w.lent.headD default).heap)) := by
  obtain ⟨l, others, lent, ⟨kept, stack⟩, outer⟩ := hw.lent
  have same : l.heap.stack = start.stack := stack.trans Array.append_empty
  have back : ∀ g : Group Task, K.Home t (g.giveBack l.heap) := fun g =>
    { heap := fun h eq => by
        cases eq
        exact ⟨kept, same ▸ rest⟩
      away := fun missing => by cases missing }
  rw [lent, List.headD_cons, List.tail_cons]
  unfold World.changeGroup
  dsimp only
  cases found : w.groups[t]? with
  | none =>
      refine ⟨outer, fun u g found' => (hw.groups u g found').unlend ?_, hw.books_congr rfl⟩
      rintro ⟨⟩
      rw [found] at found'
      cases found'
  | some g =>
      have same : w.queue? t = some (g.giveBack l.heap).tasks := by
        rw [World.queue?, found]
        rfl
      refine ⟨outer, fun u g' found' => ?_, fun b there =>
        (hw.books b there).of_queues rfl (queue?_put_same rfl same) rfl (Nat.le_refl _)⟩
      rw [Std.HashMap.getElem?_insert] at found'
      split at found'
      · next same =>
          cases found'
          exact eq_of_beq same ▸ back g
      · next other =>
          refine (hw.groups u g' found').unlend ?_
          rintro ⟨⟩
          exact other (beq_self_eq_true _)

end Lending

/-- **A group's heap comes to hand and goes back**, with the stack that it had. -/
theorem keeps_withGroup {act : Play α} (t : HeapId)
    (keep : ∀ start, K.rest start.stack →
      Preserves (K.lending (K.AtRest start) (some t)).Holds act) :
    Preserves K.Holds (withGroup t act) := by
  refine Meets.bind (meets_groupOf t) fun g => Meets.of_each fun w ⟨hw, found⟩ => ?_
  cases there : g.heap with
  | none =>
      have locked : g.lend? = none := by rw [Group.lend?, there]; rfl
      rw [locked]
      exact Meets.throw fun _ same => same ▸ hw
  | some h =>
      have lent : g.lend? =
          some (Release.applyAll h g.pending, { g with heap := none, pending := [] }) := by
        rw [Group.lend?, there]
        rfl
      have rest : K.rest (Release.applyAll h g.pending).stack := by
        rw [Release.stack_applyAll]
        exact ((hw.groups t g found).heap h there).2
      have handed := hw.lend found there rfl
      rw [lent]
      refine Meets.bind (meets_modify fun w' same => ?_) fun _ =>
        Meets.tryFinally (keep _ rest) (meets_modify fun _ after => after.giveBack rest)
      exact same ▸ handed

/-! ### Views and scopes -/

section View

variable {start : Heap} {taken : Option HeapId}

theorem Watch.Holds.openView (hw : (K.lending (K.AtRest start) taken).Holds w) :
    (K.lending (K.InView start) taken).Holds w := by
  obtain ⟨l, rest, atHand, ⟨kept, stack⟩, outer⟩ := hw.lent
  exact ⟨⟨l, rest, atHand, ⟨kept, #[], stack⟩, outer⟩,
    fun u g found => ⟨(hw.groups u g found).heap, (hw.groups u g found).away⟩, hw.books⟩

/-- The heap at hand has the height of the start. -/
theorem Watch.Holds.height {l : Lent} {rest : List Lent}
    (hw : (K.lending (K.AtRest start) taken).Holds w) (atHand : w.lent = l :: rest) :
    l.heap.stack.size = start.stack.size := by
  obtain ⟨l', others, eq, ⟨kept, stack⟩, outer⟩ := hw.lent
  cases atHand.symm.trans eq
  rw [stack, Array.append_empty]

/-- The end of a view cuts the stack back. -/
theorem meets_closeView :
    Meets (K.lending (K.InView start) taken).Holds
      (editing fun h => ((), h.cutStack start.stack.size))
      (fun _ => (K.lending (K.AtRest start) taken).Holds)
      (K.lending (K.AtRest start) taken).Holds := by
  refine Meets.of_state fun w hw => ?_
  obtain ⟨l, rest, atHand, ⟨kept, top, extended⟩, outer⟩ := hw.lent
  have cut : K.AtRest start (l.heap.cutStack start.stack.size) :=
    ⟨K.unbroken (fun _ => false) l.heap (.cutStack start.stack.size) kept, extended.restore⟩
  unfold editing
  rw [acting_cons _ atHand]
  exact ⟨⟨_, rest, rfl, cut, outer⟩,
    fun u g found => ⟨(hw.groups u g found).heap, (hw.groups u g found).away⟩,
    hw.books_congr rfl⟩

end View

/-- **A view may change the stack of its heap**; the end of the view cuts it back. -/
theorem keeps_withView {act : Play α} (id : ContextId)
    (keep : ∀ (L : Watch) base, L.Open base → Preserves L.Holds act) :
    Preserves K.Holds (withView id act) := by
  have found : Preserves K.Holds (contextOf id) := Preserves.get.bind fun w => keeps_need _
  refine found.bind fun c => keeps_withGroup c.group fun start _ => ?_
  refine Preserves.bind (meets_modify fun w hw => hw.congr rfl rfl) fun _ => ?_
  refine Meets.bind (meets_viewing fun h => h.stack.size) fun height => ?_
  refine Meets.of_each fun w ⟨hw, l, rest, atHand, seen⟩ => ?_
  obtain rfl : height = start.stack.size := seen.trans (hw.height atHand)
  have inside := keep (K.lending (K.InView start) (some c.group)) _ (K.open_inView start _)
  have last : Meets (K.lending (K.InView start) (some c.group)).Holds
      (do
        editing fun h => ((), h.cutStack start.stack.size)
        modify fun w => { w with views := w.views.tail })
      (fun _ => (K.lending (K.AtRest start) (some c.group)).Holds)
      (K.lending (K.AtRest start) (some c.group)).Holds :=
    Meets.bind meets_closeView fun _ => meets_modify fun w hw => hw.congr rfl rfl
  refine Meets.imp ?_ (fun _ _ hs => hs) (fun _ hs => hs) (Meets.tryFinally inside last)
  rintro _ rfl
  exact hw.openView

/-- A rooting scope within a view. -/
theorem keeps_withScope (opened : K.Open base) {act : Play α} (keep : Preserves K.Holds act) :
    Preserves K.Holds (withScope act) := by
  refine Meets.bind (meets_viewing fun h => h.stack.size) fun height => ?_
  refine Meets.of_each fun w ⟨hw, l, rest, atHand, seen⟩ => ?_
  have above : base ≤ height := by
    rw [seen]
    exact opened.high l rest (atHand ▸ hw.lent)
  have last : Preserves K.Holds (editing fun h => ((), h.cutStack height)) :=
    keeps_acting <| keeps_editing fun s hs =>
      Watch.session_change hs (opened.cut _ s.host.lent height above hs.lent)
  refine Meets.imp ?_ (fun _ _ hs => hs) (fun _ hs => hs) (Meets.tryFinally keep last)
  rintro _ rfl
  exact hw

/-- A heap without a group comes to hand and goes back to its register; nothing is
expected of it. -/
theorem keeps_withOwnHeap {act : Play α} (name : String)
    (keep : Preserves (K.lending (fun _ => True) none).Holds act) :
    Preserves K.Holds (withOwnHeap name act) := by
  refine Preserves.get.bind fun w => (keeps_need _).bind fun h => ?_
  refine Preserves.bind (meets_modify fun w hw => hw.congr rfl rfl) fun _ => ?_
  refine Meets.bind (meets_modify fun w hw => ?_) fun _ =>
    Meets.tryFinally keep (meets_modify fun w hw => ?_)
  · exact ⟨⟨_, w.lent, rfl, trivial, hw.lent⟩, fun u g found => (hw.groups u g found).lend,
      hw.books_congr rfl⟩
  · obtain ⟨l, rest, atHand, -, outer⟩ := hw.lent
    refine ⟨?_, fun u g found => (hw.groups u g found).unlend nofun, hw.books_congr rfl⟩
    show K.lent w.lent.tail
    rwa [atHand]

/-! ### Holding groups and contexts -/

/-- The watch while one more block holds a group. -/
def Watch.holding (K : Watch) (t : HeapId) : Watch :=
  { K with books := K.books.map fun b => b.holding t }

theorem Watch.Holds.hold (hw : K.Holds w) (t : HeapId) :
    (K.holding t).Holds { w with heldGroups := t :: w.heldGroups } := by
  refine hw.rebook rfl rfl fun b there => ?_
  obtain ⟨b, outer, rfl⟩ := Option.map_eq_some_iff.mp there
  exact (hw.books b outer).hold t

theorem Watch.Holds.unhold {t : HeapId} (hw : (K.holding t).Holds w) :
    K.Holds { w with heldGroups := w.heldGroups.erase t } :=
  hw.rebook rfl rfl fun _ there => (hw.books _ (Option.mem_map_of_mem _ there)).unhold

/-- The group may go when the block ends. -/
theorem keeps_holdingGroup {act : Play α} (t : HeapId)
    (keep : Preserves (K.holding t).Holds act) : Preserves K.Holds (World.holdingGroup t act) :=
  Preserves.of_state fun _ hw => Watch.Holds.settleGroup t (keep.state (hw.hold t)).unhold

/-- The context may go when the block ends. -/
theorem keeps_holdingContext {act : Play α} (id : ContextId) (keep : Preserves K.Holds act) :
    Preserves K.Holds (World.holdingContext id act) :=
  Preserves.of_state fun w hw =>
    have inside : K.Holds { w with heldContexts := id :: w.heldContexts } := hw.congr rfl rfl
    Watch.Holds.settleContext id ((keep.state inside).congr rfl rfl)

end HostObjects.Script
