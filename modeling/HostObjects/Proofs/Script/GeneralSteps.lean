import HostObjects.Proofs.Script.Steps

/-!
# Steps in every environment

General steps ask nothing of the heap at hand.  They work on groups, whose heaps they
take for a moment, and on contexts, in whose views they set up global objects and run
collections.  A new group's heap is as expected of one in its group, and what a context
does to its heap is undone when its view closes, so these steps keep whatever is
watched (`keeps_playGeneral`).
-/

namespace HostObjects.Script

open Heap Play

variable {K : Watch} {host : Host World}

/-! ### Classes and functions -/

theorem keeps_defineFunction (label : String) (role : Role) (rules : List Rule)
    (acts : List FinalizerAct) : Preserves K.Holds (defineFunction label role rules acts) :=
  keeps_fresh.bind fun _ =>
    Preserves.bind (meets_modify fun _ hw => hw.congr rfl rfl) fun _ => Preserves.pure _

theorem keeps_defineFunction? (label : String) (role : Role) (rules : Option (List Rule)) :
    Preserves K.Holds (defineFunction? label role rules) := by
  cases rules with
  | some rules => exact keeps_result (keeps_defineFunction label role rules [])
  | none => exact Preserves.pure _

theorem keeps_defineCallbacks (label : String) (spec : ClassSpec) :
    Preserves K.Holds (defineCallbacks label spec) := by
  refine (keeps_mapM (fun c => ?_) spec.callbacks).bind fun given => ?_
  · exact keeps_result (keeps_defineFunction label (.callback c.1) c.2 [])
  · cases spec.finalizer with
    | some acts =>
        exact keeps_result ((keeps_defineFunction label (.callback .finalize) [] acts).map _)
    | none => exact Preserves.pure _

theorem keeps_defineClass (as : String) (spec : ClassSpec) :
    Preserves K.Holds (defineClass as spec) := by
  refine Preserves.get.bind fun w => (keeps_mapM (fun v => ?_) spec.values).bind fun values => ?_
  · refine (keeps_defineFunction? as .getter v.getter).bind fun _ => ?_
    exact keeps_result (keeps_defineFunction? as .setter v.setter)
  refine (keeps_mapM (fun f => ?_) spec.functions).bind fun functions => ?_
  · exact keeps_result (keeps_defineFunction _ .function f.call [])
  refine (keeps_defineCallbacks as spec).bind fun callbacks => keeps_fresh.bind fun id => ?_
  dsimp only
  split
  · exact keeps_editRegisters _
  · exact Preserves.throw _

/-! ### Groups and contexts -/

theorem keeps_makeGroup (label : String) (options : GroupOptions) :
    Preserves K.Holds (makeGroup label options) := by
  refine Preserves.of_state fun w hw => ?_
  have home : K.Home ⟨w.issued⟩ (Group.new ⟨w.issued⟩ options w.thread) :=
    { heap := fun h eq => by
        cases eq
        exact ⟨K.kept_new _ _ _, K.rest_empty⟩
      away := nofun }
  refine hw.put home rfl rfl fun b there => ?_
  have kept := hw.books b there
  exact kept.put (kept.booked.makeGroup rfl rfl rfl rfl rfl) rfl rfl rfl rfl

/-- The functions of the host keep every watch that views keep. -/
def KeepsOpen (host : Host World) : Prop :=
  ∀ (L : Watch) (base : Nat), L.Open base → host.Keeps L.session

section General

variable (scripted : host.toReclaimer = reclaimer)
include scripted

theorem keeps_makeGlobal (still : K.Still) (c : Option Class) :
    Preserves K.Holds (makeGlobal host c) := by
  have tender := (still.sturdy scripted).tender
  unfold makeGlobal
  refine Preserves.bind (keeps_acting ?_) fun o => keeps_result ?_
  · cases c with
    | some c => exact keeps_makeInstance tender c none
    | none => exact keeps_allocPlain tender
  · exact keeps_changing still fun h => Or.inr ⟨.addRoot (.object o), rfl, rfl⟩

variable (lawful : KeepsOpen host)
include lawful

theorem keeps_makeContext (as : String) (t : HeapId) (c : Option Class) :
    Preserves K.Holds (makeContext host as t c) := by
  have made : Preserves K.Holds (withGroup t (makeGlobal host c)) :=
    keeps_withGroup t fun start _ =>
      keeps_makeGlobal scripted (K.still_atRest start (some t)) c
  refine made.bind fun (global, root) => keeps_fresh.bind fun n => ?_
  refine Preserves.bind (meets_modify fun _ hw => hw.congr rfl rfl) fun _ => keeps_result ?_
  refine keeps_holdingContext ⟨n⟩ ?_
  cases c with
  | none => exact keeps_storeContext as ⟨n⟩
  | some c =>
      refine (keeps_withView ⟨n⟩ fun L base opened => ?_).bind fun _ => keeps_storeContext as ⟨n⟩
      have setUp : Preserves L.session (View.setUp host global c) :=
        keeps_setUpAlong (lawful L base opened) global _
      exact keeps_acting (keeps_holding (opened.toStill.sturdy scripted).tender _ setUp)

/-! ### Reports -/

omit scripted lawful in
theorem keeps_diagnose (s : Subject) : Preserves K.Holds (diagnose s) := by
  cases s with
  | ofClass name => exact keeps_result (keeps_classAt name)
  | group name =>
      refine (keeps_groupAt name).bind fun t => Preserves.get.bind fun w => ?_
      exact keeps_result (keeps_groupOf t)
  | context name =>
      refine (keeps_contextIdAt name).bind fun id => (keeps_contextOf id).bind fun c => ?_
      exact (keeps_groupOf c.group).bind fun _ => keeps_result Preserves.get
  | managed name =>
      exact Preserves.get.bind fun _ => Preserves.get.bind fun _ => keeps_result (keeps_need _)
  | root name => exact Preserves.get.bind fun _ => keeps_result (keeps_need _)
  | value v => exact Preserves.get.bind fun _ => keeps_result (keeps_value v)

/-! ### General steps -/

omit scripted lawful in
/-- Taking the heap of a group for a moment. -/
theorem keeps_needUnlocked (t : HeapId) : Preserves K.Holds (needUnlocked t) :=
  keeps_withGroup t fun _ _ => Preserves.pure _

/-- **General steps** keep whatever is watched. -/
theorem keeps_playGeneral (op : General) : Preserves K.Holds (playGeneral host op) := by
  cases op with
  | given v | valueInfo v => exact keeps_result (keeps_value v)
  | compareValues a b => exact (keeps_value a).bind fun _ => keeps_result (keeps_value b)
  | textInfo | quoted | indexText | compareTexts | attributes | constants =>
      exact Preserves.pure _
  | arrayNew as names => exact keeps_result (keeps_storeArray as _)
  | arrayClone a as =>
      exact Preserves.get.bind fun _ => (keeps_need _).bind fun _ =>
        keeps_result (keeps_editRegisters _)
  | arrayDrop a => exact Preserves.get.bind fun _ => keeps_result (keeps_editRegisters _)
  | arrayInfo a i k =>
      exact Preserves.get.bind fun _ => (keeps_need _).bind fun _ => keeps_result Preserves.get
  | options o =>
      cases o with
      | some o => exact Preserves.pure _
      | none => exact Preserves.throw _
  | handleInfo o => exact keeps_result (keeps_object o)
  | weakNew o as => exact (keeps_object o).bind fun _ => keeps_result (keeps_editRegisters _)
  | faultInfo f => exact keeps_result Preserves.get
  | diagnostic s => exact keeps_result (keeps_diagnose s)
  | classDrop c => exact Preserves.get.bind fun _ => keeps_result (keeps_editRegisters _)
  | classClone c as => exact (keeps_classAt c).bind fun _ => keeps_result (keeps_editRegisters _)
  | classRefs c => exact (keeps_classAt c).bind fun _ => keeps_result Preserves.get
  | classInfo c | classLookup c => exact keeps_result (keeps_classAt c)
  | classRelation a b => exact (keeps_classAt a).bind fun _ => keeps_result (keeps_classAt b)
  | groupNew as options =>
      cases options with
      | some options =>
          exact (keeps_makeGroup as options).bind fun t => keeps_result (keeps_storeGroup as t)
      | none => exact Preserves.throw _
  | groupClone g as =>
      exact (keeps_groupAt g).bind fun t => keeps_result (keeps_storeGroup as t)
  | groupDrop g => exact keeps_result (keeps_dropGroup g)
  | groupInfo g =>
      exact (keeps_groupAt g).bind fun t => (keeps_groupOf t).bind fun _ =>
        keeps_result Preserves.get
  | groupEqual a b => exact (keeps_groupAt a).bind fun _ => keeps_result (keeps_groupAt b)
  | groupCollect g =>
      refine (keeps_groupAt g).bind fun t => keeps_result (keeps_withGroup t fun start _ => ?_)
      exact keeps_acting (keeps_collect ((K.still_atRest start (some t)).sturdy scripted).tender)
  | hasPendingWork g =>
      refine (keeps_groupAt g).bind fun t => (keeps_needUnlocked t).bind fun _ => ?_
      refine (keeps_groupOf t).bind fun g => Preserves.ite (fun _ => Preserves.pure _) fun _ => ?_
      exact keeps_result (keeps_withGroup t fun _ _ => keeps_readingAtHand _)
  | contextNew as group c =>
      refine (keeps_class? c).bind fun c => ?_
      have made : ∀ t : HeapId,
          Preserves K.Holds (World.holdingGroup t (makeContext host as t c)) :=
        fun t => keeps_holdingGroup t (keeps_makeContext scripted lawful as t c)
      cases group with
      | some g =>
          exact (keeps_groupAt g).bind fun t => (keeps_needUnlocked t).bind fun _ => made t
      | none => exact (keeps_makeGroup as {}).bind made
  | contextClone c as =>
      exact (keeps_contextIdAt c).bind fun id => keeps_result (keeps_storeContext as id)
  | contextDrop c => exact keeps_result (keeps_dropContext c)
  | contextGroup c as =>
      exact (keeps_contextIdAt c).bind fun id => (keeps_contextOf id).bind fun c =>
        keeps_result (keeps_storeGroup as c.group)
  | contextInfo c =>
      exact (keeps_contextIdAt c).bind fun id => (keeps_contextOf id).bind fun _ =>
        keeps_result Preserves.get
  | contextName c name =>
      refine (keeps_contextIdAt c).bind fun id => (keeps_contextOf id).bind fun c => ?_
      exact keeps_result (meets_modify fun _ hw => hw.congr rfl rfl)
  | contextEqual a b =>
      refine (keeps_contextIdAt a).bind fun a => (keeps_contextIdAt b).bind fun b => ?_
      exact (keeps_contextOf a).bind fun _ => keeps_result (keeps_contextOf b)
  | contextCollect c =>
      refine (keeps_contextIdAt c).bind fun id => keeps_result ?_
      exact keeps_withView id fun L base opened =>
        keeps_acting (keeps_collect (opened.toStill.sturdy scripted).tender)
  | tryEnter c =>
      refine (keeps_contextIdAt c).bind fun id => (keeps_contextOf id).bind fun c => ?_
      refine (keeps_groupOf c.group).bind fun g =>
        Preserves.ite (fun _ => Preserves.pure _) fun _ => ?_
      exact keeps_result (keeps_withGroup c.group fun _ _ => Preserves.pure _)
  | heapNew as limits mode =>
      refine keeps_fresh.bind fun n => ?_
      refine Preserves.bind (meets_modify fun _ hw => hw.congr rfl rfl) fun _ => ?_
      exact keeps_result (keeps_editRegisters _)
  | heapDrop h => exact keeps_result (keeps_dropHeap h)
  | rootDrop p => exact keeps_result (keeps_dropOwned p)
  | managedDrop m => exact keeps_result (keeps_dropManaged m)
  | managedOwner m => exact Preserves.get.bind fun _ => keeps_result (keeps_need _)
  | unknown => exact Preserves.throw _

end General

end HostObjects.Script
