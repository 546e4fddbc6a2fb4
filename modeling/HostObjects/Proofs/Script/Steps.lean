import HostObjects.Proofs.Script.AtHand

/-!
# Steps on the heap at hand

A step of a script keeps what is watched, provided the heap at hand may be used as the
step uses it: a heap step asks for a watch that is still, a view step for one that is
open.  There is one case for each kind of step, and what the steps are made of comes
first: operands, registers and actions on the heap at hand.
-/

namespace HostObjects.Script

open Heap Play

variable {α β : Type} {K : Watch} {base : Nat} {I : World → Prop} {host : Host World}

/-- The answer of a part of a step is a result. -/
theorem keeps_result {act : Play α} {r : α → β} (keep : Preserves I act) :
    Preserves I (act >>= fun a => pure (r a)) :=
  keep.bind fun _ => Preserves.pure _

/-! ### Operands -/

section Operands

theorem keeps_value (o : Operand) : Preserves I (value o) :=
  Preserves.get.bind fun _ => Preserves.pure _

theorem keeps_object (name : String) : Preserves I (object name) :=
  Preserves.get.bind fun _ => keeps_need _

theorem keeps_object? (name : Option String) : Preserves I (object? name) := by
  cases name with
  | some name => exact (keeps_object name).bind fun _ => Preserves.pure _
  | none => exact Preserves.pure _

theorem keeps_node (n : NodeOperand) : Preserves I (node n) := by
  cases n with
  | host k => exact Preserves.pure _
  | register name => exact (keeps_object name).bind fun _ => Preserves.pure _

theorem keeps_classAt (name : String) : Preserves I (classAt name) :=
  Preserves.get.bind fun _ => keeps_need _

theorem keeps_class? (name : Option String) : Preserves I (class? name) := by
  cases name with
  | some name => exact (keeps_classAt name).bind fun _ => Preserves.pure _
  | none => exact Preserves.pure _

theorem keeps_groupAt (name : String) : Preserves I (groupAt name) :=
  Preserves.get.bind fun _ => keeps_need _

theorem keeps_groupOf (t : HeapId) : Preserves I (groupOf t) :=
  Preserves.get.bind fun _ => keeps_need _

theorem keeps_contextIdAt (name : String) : Preserves I (contextIdAt name) :=
  Preserves.get.bind fun _ => keeps_need _

theorem keeps_contextOf (id : ContextId) : Preserves I (contextOf id) :=
  Preserves.get.bind fun _ => keeps_need _

theorem keeps_rootAt (name : String) : Preserves I (rootAt name) :=
  Preserves.get.bind fun _ => keeps_need _

theorem keeps_viewContext : Preserves I viewContext :=
  Preserves.get.bind fun _ => (keeps_need _).bind fun id =>
    (keeps_contextOf id).bind fun _ => Preserves.pure _

theorem keeps_mapM {act : α → Play β} (keep : ∀ a, Preserves I (act a)) (as : List α) :
    Preserves I (as.mapM act) := by
  induction as with
  | nil => exact Preserves.pure _
  | cons a as ih =>
      rw [List.mapM_cons]
      exact (keep a).bind fun _ => ih.bind fun _ => Preserves.pure _

end Operands

/-! ### Registers -/

theorem keeps_editRegisters (f : Registers → Registers) :
    Preserves K.Holds (editRegisters f) :=
  meets_modify fun _ hw => hw.congr rfl rfl

theorem keeps_fresh : Preserves K.Holds fresh :=
  Preserves.modifyGet fun _ hw => hw.congr rfl rfl rfl rfl (Nat.le_succ _)

theorem keeps_store (as : Option String) (v : Value) : Preserves K.Holds (store as v) := by
  unfold Play.store
  cases as with
  | some name => exact keeps_editRegisters _
  | none => exact Preserves.pure _

theorem keeps_storeGroup (as : String) (t : HeapId) :
    Preserves K.Holds (storeGroup as t) := by
  refine Preserves.get.bind fun w => (keeps_editRegisters _).bind fun _ => ?_
  cases w.registers.groups[as]? with
  | some old => exact meets_modify fun w hw => hw.settleGroup old
  | none => exact Preserves.pure _

theorem keeps_storeContext (as : String) (id : ContextId) :
    Preserves K.Holds (storeContext as id) := by
  refine Preserves.get.bind fun w => (keeps_editRegisters _).bind fun _ => ?_
  cases w.registers.contexts[as]? with
  | some old => exact meets_modify fun w hw => hw.settleContext old
  | none => exact Preserves.pure _

theorem keeps_dropContext (name : String) : Preserves K.Holds (dropContext name) := by
  refine Preserves.get.bind fun w => ?_
  cases w.registers.contexts[name]? with
  | some id =>
      refine (keeps_editRegisters _).bind fun _ => Preserves.bind ?_ fun _ => Preserves.pure _
      exact meets_modify fun w hw => hw.settleContext id
  | none => exact Preserves.pure _

theorem keeps_dropGroup (name : String) : Preserves K.Holds (dropGroup name) := by
  refine Preserves.get.bind fun w => ?_
  cases w.registers.groups[name]? with
  | some t =>
      refine (keeps_editRegisters _).bind fun _ => Preserves.bind ?_ fun _ => Preserves.pure _
      exact meets_modify fun w hw => hw.settleGroup t
  | none => exact Preserves.pure _

theorem keeps_dropHeap (name : String) : Preserves K.Holds (dropHeap name) := by
  refine Preserves.get.bind fun w => ?_
  cases w.registers.heaps[name]? with
  | some h =>
      refine (keeps_editRegisters _).bind fun _ => Preserves.bind ?_ fun _ => Preserves.pure _
      exact meets_modify fun w hw => hw.letAllGo h.remains
  | none => exact Preserves.pure _

theorem keeps_takeManaged (name : String) : Preserves K.Holds (takeManaged name) :=
  Preserves.get.bind fun _ => (keeps_editRegisters _).bind fun _ => Preserves.pure _

theorem keeps_takeOwned (name : String) : Preserves K.Holds (takeOwned name) :=
  Preserves.get.bind fun _ => (keeps_editRegisters _).bind fun _ => Preserves.pure _

theorem keeps_dropManaged (name : String) : Preserves K.Holds (Play.dropManaged name) := by
  refine (keeps_takeManaged name).bind fun m => ?_
  cases m with
  | some m =>
      exact Preserves.bind (meets_modify fun w hw => hw.dropManaged m) fun _ =>
        Preserves.pure _
  | none => exact Preserves.pure _

theorem keeps_dropOwned (name : String) : Preserves K.Holds (Play.dropOwned name) := by
  refine (keeps_takeOwned name).bind fun p => ?_
  cases p with
  | some p =>
      exact Preserves.bind (meets_modify fun w hw => hw.dropOwned p) fun _ =>
        Preserves.pure _
  | none => exact Preserves.pure _

theorem keeps_privateData (data : Option PrivateOperand) :
    Preserves K.Holds (privateData data) := by
  cases data with
  | none => exact Preserves.pure _
  | some data =>
      cases data with
      | word | string => exact Preserves.pure _
      | managed name => exact (keeps_takeManaged name).bind fun _ => Preserves.pure _
      | root name => exact (keeps_takeOwned name).bind fun _ => Preserves.pure _

theorem keeps_storeArray (as : String) (names : List Text) :
    Preserves K.Holds (storeArray as names) :=
  keeps_fresh.bind fun _ => keeps_editRegisters _

/-! ### Actions on the heap at hand -/

/-- The operation runs one command at most, which leaves the stack alone. -/
def RunsStill (act : HeapM α) : Prop :=
  ∀ h, (act h).2 = h ∨
    ∃ c : Command, c.movesStack = false ∧ (act h).2 = c.run (fun _ => false) h

theorem keeps_changing (still : K.Still) {act : HeapM α} (runs : RunsStill act) :
    Preserves K.Holds (changing act) := by
  refine keeps_acting (keeps_editing fun s hs => ?_)
  obtain same | ⟨c, moves, same⟩ := runs s.heap
  · rw [same]
    exact hs
  · rw [same]
    exact Watch.session_change hs
      (still.run (fun _ => false) c _ s.host.lent s.holding moves hs.lent)

theorem runsStill_newOwnedRoot (v : Value) : RunsStill (newOwnedRoot v) := by
  intro h
  have looked : Heap.reading (fun h => h.checkStorable v) h = (h.checkStorable v, h) := rfl
  unfold newOwnedRoot
  rw [bind_apply, looked]
  cases h.checkStorable v with
  | ok _ => exact Or.inr ⟨.addRoot v, rfl, rfl⟩
  | error e => exact Or.inl rfl

theorem runsStill_newManaged (v : Value) (owner : Option Node) :
    RunsStill (newManaged v owner) := by
  intro h
  unfold newManaged
  rw [get_bind_apply]
  split
  · next owner o =>
      refine Or.inr ⟨.addEdge owner (.object o), rfl, ?_⟩
      rw [bind_apply]
      show _ = (addEdge owner (.object o) h).2
      rcases addEdge owner (.object o) h with ⟨_ | _, _⟩ <;> rfl
  · exact Or.inl rfl

section Steps

variable (scripted : host.toReclaimer = reclaimer)
include scripted

/-! ### Heap steps -/

/-- **Heap steps** keep a watch that is still. -/
theorem keeps_playHeap (still : K.Still) (op : HeapStep) :
    Preserves K.Holds (playHeap host op) := by
  have sturdy := still.sturdy scripted
  have run : ∀ {β : Type} {act : HeapM β} (c : Command), c.movesStack = false →
      (∀ h, (act h).2 = c.run (fun _ => false) h) → Preserves K.Holds (changing act) :=
    fun c moves runs => keeps_changing still fun h => Or.inr ⟨c, moves, runs h⟩
  cases op with
  | stats | objectPrototype | functionPrototype => exact keeps_result (keeps_readingAtHand _)
  | setMode mode => exact keeps_result (run (.setMode mode) rfl fun _ => rfl)
  | collect => exact keeps_result (keeps_acting (keeps_collect sturdy.tender))
  | alloc => exact keeps_result (keeps_acting (keeps_allocPlain sturdy.tender))
  | isValid o | getPrototype o | className o | pinCount o =>
      exact (keeps_object o).bind fun _ => keeps_result (keeps_readingAtHand _)
  | setPrototype o p =>
      refine (keeps_object o).bind fun o => (keeps_object? p).bind fun p => ?_
      exact keeps_result (run (.setPrototype o p) rfl fun _ => rfl)
  | ownHas o k | ownGet o k | ownAttributes o k =>
      exact (keeps_object o).bind fun _ => keeps_result (keeps_readingAtHand _)
  | ownDefine o k v a =>
      refine (keeps_object o).bind fun o => (keeps_value v).bind fun v => ?_
      exact keeps_result (keeps_acting (keeps_defineOwn sturdy o ⟨k, v, a⟩))
  | ownPut o k v a =>
      refine (keeps_object o).bind fun o => (keeps_value v).bind fun v => ?_
      exact keeps_result (keeps_acting (keeps_putOwn sturdy o ⟨k, v, a⟩))
  | ownDelete o k =>
      refine (keeps_object o).bind fun o => ?_
      exact keeps_result (keeps_acting (keeps_deleteOwn sturdy o k))
  | ownNames o => exact (keeps_object o).bind fun _ => keeps_result (keeps_readingAtHand _)
  | rootAdd as v =>
      refine (keeps_value v).bind fun v => Preserves.bind ?_ fun r => ?_
      · exact run (.addRoot v) rfl fun _ => rfl
      · exact keeps_result (keeps_editRegisters _)
  | rootGet r => exact (keeps_rootAt r).bind fun _ => keeps_result (keeps_readingAtHand _)
  | rootSet r v =>
      refine (keeps_rootAt r).bind fun r => (keeps_value v).bind fun v => ?_
      exact keeps_result (run (.setRoot r v) rfl fun _ => rfl)
  | rootRemove r =>
      refine (keeps_rootAt r).bind fun r => ?_
      exact keeps_result (run (.removeRoot r) rfl fun _ => rfl)
  | pin v => exact (keeps_value v).bind fun v => keeps_result (run (.pin v) rfl fun _ => rfl)
  | unpin v => exact (keeps_value v).bind fun v => keeps_result (run (.unpin v) rfl fun _ => rfl)
  | edgeAdd owner target =>
      refine (keeps_node owner).bind fun owner => (keeps_node target).bind fun target => ?_
      exact keeps_result (run (.addEdge owner target) rfl fun _ => rfl)
  | edgeRemove owner target =>
      refine (keeps_node owner).bind fun owner => (keeps_node target).bind fun target => ?_
      exact keeps_result (run (.removeEdge owner target) rfl fun _ => rfl)
  | edgeCount owner target =>
      refine (keeps_node owner).bind fun owner => (keeps_node target).bind fun target => ?_
      exact keeps_result (keeps_readingAtHand _)
  | hostRootAdd key => exact keeps_result (run (.addHostRoot key) rfl fun _ => rfl)
  | hostRootRemove key => exact keeps_result (run (.removeHostRoot key) rfl fun _ => rfl)
  | weakUpgrade w =>
      exact Preserves.get.bind fun _ => (keeps_need _).bind fun o =>
        keeps_result (keeps_readingAtHand _)

/-! ### View steps -/

omit scripted in
theorem keeps_swallowing {J : Session World → Prop} (swallow : Bool) (fallback : α)
    {act : Action World α} (keep : Preserves J act) :
    Preserves J (swallowing swallow fallback act) :=
  Preserves.of_state fun _ hs => keep.state hs

/-- **View steps** keep a watch that is open. -/
theorem keeps_playView (opened : K.Open base) (lawful : host.Keeps K.session)
    (swallow : Bool) (op : ViewStep) : Preserves K.Holds (playView host swallow op) := by
  have sturdy := (opened.enduring scripted).toSturdy
  have lingering := (opened.enduring scripted).lingering
  have tender := lingering.toTender
  have acts : ∀ {β : Type} {act : Action World β} {r : β → Result},
      Preserves K.session act → Preserves K.Holds (acting act >>= fun b => pure (r b)) :=
    fun keep => keeps_result (keeps_acting keep)
  have swallows : ∀ {β : Type} {fallback : β} {act : Action World β} {r : β → Result},
      Preserves K.session act →
        Preserves K.Holds (acting (swallowing swallow fallback act) >>= fun b => pure (r b)) :=
    fun keep => acts (keeps_swallowing swallow _ keep)
  have setPrivate : ∀ (o : Handle) (data : Option PrivateData),
      Preserves K.Holds (changing (Heap.setPrivate o data)) :=
    fun o data => keeps_acting (keeps_setPrivate tender o data)
  cases op with
  | makeObject c data =>
      refine (keeps_class? c).bind fun c => (keeps_privateData data).bind fun data => ?_
      exact acts (keeps_holding tender _ (keeps_makeObject lingering lawful c data))
  | has o k =>
      exact (keeps_object o).bind fun o => swallows (keeps_hasProperty lingering lawful o k)
  | get o k =>
      exact (keeps_object o).bind fun o => swallows (keeps_getProperty lingering lawful o k)
  | set o k v a =>
      refine (keeps_object o).bind fun o => (keeps_value v).bind fun v => ?_
      exact swallows (keeps_setProperty lingering lawful (keeps_writeOwn sturdy o _))
  | delete o k =>
      refine (keeps_object o).bind fun o => ?_
      exact swallows (keeps_deleteProperty lingering lawful (keeps_deleteOwn sturdy o k))
  | names as o =>
      refine (keeps_object o).bind fun o => ?_
      refine (keeps_acting (keeps_propertyNames lingering lawful o)).bind fun names => ?_
      cases as with
      | some as => exact keeps_result (keeps_storeArray as names)
      | none => exact Preserves.pure _
  | getIndex o i =>
      exact (keeps_object o).bind fun o => swallows (keeps_getProperty lingering lawful o _)
  | setIndex o i v =>
      refine (keeps_object o).bind fun o => (keeps_value v).bind fun v => ?_
      exact swallows (keeps_setProperty lingering lawful (keeps_writeOwn sturdy o _))
  | hasKey o k =>
      refine (keeps_object o).bind fun o => (keeps_value k).bind fun k => ?_
      exact swallows (keeps_hasKeyed lingering lawful o k)
  | getKey o k =>
      refine (keeps_object o).bind fun o => (keeps_value k).bind fun k => ?_
      exact swallows (keeps_getKeyed lingering lawful o k)
  | setKey o k v a =>
      refine (keeps_object o).bind fun o => (keeps_value k).bind fun k => ?_
      refine (keeps_value v).bind fun v => ?_
      exact swallows (keeps_setKeyed lingering lawful k fun _ => keeps_writeOwn sturdy o _)
  | deleteKey o k =>
      refine (keeps_object o).bind fun o => (keeps_value k).bind fun k => ?_
      exact swallows (keeps_deleteKeyed lingering lawful k (keeps_deleteOwn sturdy o))
  | call o this args =>
      refine (keeps_object o).bind fun o => (keeps_value this).bind fun this => ?_
      refine (keeps_mapM keeps_value args).bind fun args => ?_
      exact swallows (keeps_call lingering lawful o this args)
  | construct o args =>
      refine (keeps_object o).bind fun o => (keeps_mapM keeps_value args).bind fun args => ?_
      exact acts (keeps_construct lingering lawful o args)
  | instanceOf o v =>
      refine (keeps_object o).bind fun o => (keeps_value v).bind fun v => ?_
      exact swallows (keeps_hasInstance lingering lawful o v)
  | convert o hint =>
      exact (keeps_object o).bind fun o => swallows (keeps_convert lingering lawful o hint)
  | toBool v => exact keeps_result (keeps_value v)
  | toNumber v => exact (keeps_value v).bind fun v => acts (keeps_toNumber lingering lawful v)
  | toText v => exact (keeps_value v).bind fun v => acts (keeps_toText lingering lawful v)
  | getPrototype o => exact (keeps_object o).bind fun _ => keeps_result (keeps_readingAtHand _)
  | setPrototype o p =>
      refine (keeps_object o).bind fun o => (keeps_object? p).bind fun p => ?_
      exact acts (keeps_setPrototype tender o p)
  | classPrototype c =>
      refine (keeps_classAt c).bind fun c => ?_
      exact acts (keeps_holding tender _ (keeps_classPrototype tender c))
  | objectInfo o => exact (keeps_object o).bind fun _ => keeps_result (keeps_readingAtHand _)
  | isOfClass o c =>
      refine (keeps_object o).bind fun _ => (keeps_classAt c).bind fun _ => ?_
      exact keeps_result (keeps_readingAtHand _)
  | privateGet o type =>
      exact (keeps_object o).bind fun _ => keeps_result (keeps_readingAtHand _)
  | privateAdd o n =>
      refine (keeps_object o).bind fun o => (keeps_readingAtHand _).bind fun data => ?_
      rcases data with _ | ⟨m⟩ | _ | _ | _
      case some.word => exact keeps_result (setPrivate o _)
      all_goals exact Preserves.pure _
  | privateSet o data =>
      refine (keeps_object o).bind fun o => (keeps_privateData data).bind fun data => ?_
      exact acts (keeps_replacePrivate tender o data)
  | privateTake o =>
      refine (keeps_object o).bind fun o => (keeps_readingAtHand _).bind fun data => ?_
      exact (setPrivate o none).bind fun _ => acts (keeps_discarding tender data)
  | global => exact keeps_result keeps_viewContext
  | viewInfo =>
      exact keeps_viewContext.bind fun _ => keeps_result (keeps_readingAtHand _)
  | sameContext c =>
      refine (keeps_contextIdAt c).bind fun other => keeps_viewContext.bind fun _ => ?_
      exact keeps_result (keeps_contextOf other)
  | pushRoot v => exact (keeps_value v).bind fun v => acts (keeps_push lingering v)
  | rootNew as v =>
      refine (keeps_value v).bind fun v => ?_
      refine (keeps_changing opened.toStill (runsStill_newOwnedRoot v)).bind fun p => ?_
      refine (keeps_editRegisters _).bind fun _ => (keeps_dropOwned as).bind fun _ => ?_
      exact keeps_result (keeps_editRegisters _)
  | rootGet p =>
      refine Preserves.get.bind fun _ => (keeps_need _).bind fun p => ?_
      exact keeps_result (keeps_readingAtHand _)
  | rootSet p v =>
      refine Preserves.get.bind fun _ => (keeps_need _).bind fun p => ?_
      refine (keeps_value v).bind fun v => (keeps_readingAtHand _).bind fun _ => ?_
      refine keeps_result (keeps_changing opened.toStill fun _ => ?_)
      exact Or.inr ⟨.setRoot p.root v, rfl, rfl⟩
  | managedNew as v owner =>
      refine (keeps_value v).bind fun v => ?_
      have made : ∀ n : Option Node, Preserves K.Holds (do
          let m ← changing (Heap.newManaged v n)
          let _ ← Play.dropManaged as
          editRegisters fun r => { r with managed := r.managed.insert as m }
          return Result.nothing) := by
        intro n
        refine (keeps_changing opened.toStill (runsStill_newManaged v n)).bind fun m => ?_
        exact (keeps_dropManaged as).bind fun _ => keeps_result (keeps_editRegisters _)
      cases owner with
      | some n => exact ((keeps_node n).map _).bind made
      | none => exact (Preserves.pure none).bind made
  | managedGet m =>
      refine Preserves.get.bind fun _ => (keeps_need _).bind fun m => ?_
      exact acts (keeps_managedValue lingering m)

end Steps

end HostObjects.Script
