import HostObjects.Group.Basic
import HostObjects.View.Session

/-!
# The diary of a host

A host that notes each of its finalizers as it runs keeps a diary.  The diary says on
which object a finalizer ran, for which class of its chain, and which private data it
saw and left.  Objects that are let go together fill a diary with one block each: the
finalizers of the class chain, most derived first, each on the private data that the
one before left (`diary_letAllGo`).  An object without a class leaves an empty block.
-/

namespace HostObjects

variable {σ : Type}

/-! ### Blocks -/

/-- A finalizer that ran. -/
structure Entry where
  finalizer : HostFunction
  object : Handle
  /-- The class of the chain that the finalizer belongs to. -/
  ofClass : ClassId
  /-- The private data that it saw. -/
  seen : Option PrivateData
  /-- The private data that it left. -/
  left : Option PrivateData
deriving DecidableEq

/-- The finalizers of a class chain ran on an object, one for each class that has one
and in the order of the chain, each on the private data that the one before left.
Once the data are taken there are none. -/
inductive Finalized (o : Handle) :
    List Descriptor → Option PrivateData → List Entry → Option PrivateData → Prop
  | nil (data : Option PrivateData) : Finalized o [] data [] data
  | without {d : Descriptor} {ds : List Descriptor} {data left : Option PrivateData}
      {es : List Entry} (none : d.callbacks .finalize = none)
      (rest : Finalized o ds data es left) : Finalized o (d :: ds) data es left
  | run {d : Descriptor} {ds : List Descriptor} {data between left : Option PrivateData}
      {es : List Entry} {f : HostFunction} (some : d.callbacks .finalize = some f)
      (taken : data = none → between = none) (rest : Finalized o ds between es left) :
      Finalized o (d :: ds) data (⟨f, o, d.id, data, between⟩ :: es) left

/-- The class chain of an object, most derived first; empty if it has no class. -/
def Reaped.chain (r : Reaped) : List Descriptor := (r.object.ofClass.map Class.chain).getD []

/-- The diary has one block for each of the objects, in order, and nothing else. -/
inductive Diary : List Reaped → List Entry → Prop
  | nil : Diary [] []
  | cons {r : Reaped} {rs : List Reaped} {block es : List Entry}
      {left : Option PrivateData}
      (finalized : Finalized r.handle r.chain r.object.privateData block left)
      (rest : Diary rs es) : Diary (r :: rs) (block ++ es)

theorem Diary.append {rs rs' : List Reaped} {es es' : List Entry} (first : Diary rs es)
    (second : Diary rs' es') : Diary (rs ++ rs') (es ++ es') := by
  induction first with
  | nil => exact second
  | cons finalized _ ih =>
      rw [List.append_assoc]
      exact .cons finalized ih

theorem Finalized.of_mem {o : Handle} {ds : List Descriptor} {data left : Option PrivateData}
    {es : List Entry} (finalized : Finalized o ds data es left) {e : Entry} (mem : e ∈ es) :
    e.object = o ∧ ∃ d ∈ ds, e.ofClass = d.id ∧ d.callbacks .finalize = some e.finalizer := by
  induction finalized with
  | nil => cases mem
  | without _ _ ih =>
      obtain ⟨same, d, inChain, of⟩ := ih mem
      exact ⟨same, d, List.mem_cons_of_mem _ inChain, of⟩
  | run some _ _ ih =>
      obtain rfl | mem := List.mem_cons.mp mem
      · exact ⟨rfl, _, List.mem_cons_self, rfl, some⟩
      · obtain ⟨same, d, inChain, of⟩ := ih mem
        exact ⟨same, d, List.mem_cons_of_mem _ inChain, of⟩

/-- **Objects without a class are never finalized**: every entry is about an object
that has one, and a finalizer of its chain. -/
theorem Diary.of_mem {rs : List Reaped} {es : List Entry} (diary : Diary rs es) {e : Entry}
    (mem : e ∈ es) :
    ∃ r ∈ rs, ∃ c, r.object.ofClass = some c ∧ e.object = r.handle ∧
      ∃ d ∈ c.chain, e.ofClass = d.id ∧ d.callbacks .finalize = some e.finalizer := by
  induction diary with
  | nil => cases mem
  | @cons r rs block es left finalized _ ih =>
      rcases List.mem_append.mp mem with mem | mem
      · obtain ⟨same, d, inChain, of⟩ := finalized.of_mem mem
        refine ⟨r, List.mem_cons_self, ?_⟩
        unfold Reaped.chain at inChain
        cases ofClass : r.object.ofClass with
        | none =>
            rw [ofClass] at inChain
            cases inChain
        | some c =>
            rw [ofClass] at inChain
            exact ⟨c, rfl, same, d, inChain, of⟩
      · obtain ⟨r', inRest, of⟩ := ih mem
        exact ⟨r', List.mem_cons_of_mem _ inRest, of⟩

/-! ### Hosts that keep a diary -/

/-- The host notes each finalizer as it runs, and nothing else.  A finalizer may take
the private data but cannot put any in their place. -/
structure Reclaimer.KeepsDiary (host : Reclaimer σ) (read : σ → List Entry) : Prop where
  finalize : ∀ f o d data s, read (host.finalize f o d data s).2 =
    read s ++ [⟨f, o, d.id, data, (host.finalize f o d data s).1⟩]
  taken : ∀ f o d s, (host.finalize f o d none s).1 = none
  discard : ∀ data s, read (host.discard data s) = read s

section Letting

variable {host : Reclaimer σ} {read : σ → List Entry} (keeps : host.KeepsDiary read)
include keeps

theorem diary_finalizeAlong (o : Handle) (ds : List Descriptor) (data : Option PrivateData)
    (s : σ) :
    ∃ es, Finalized o ds data es (finalizeAlong host o ds data s).1 ∧
      read (finalizeAlong host o ds data s).2 = read s ++ es := by
  induction ds generalizing data s with
  | nil => exact ⟨[], .nil data, (List.append_nil _).symm⟩
  | cons d ds ih =>
      unfold finalizeAlong
      cases callback : d.callbacks .finalize with
      | none =>
          obtain ⟨es, finalized, noted⟩ := ih data s
          exact ⟨es, .without callback finalized, noted⟩
      | some f =>
          have first := keeps.finalize f o d data s
          obtain ⟨es, finalized, noted⟩ :=
            ih (host.finalize f o d data s).1 (host.finalize f o d data s).2
          refine ⟨_, .run callback ?_ finalized, ?_⟩
          · rintro rfl
            exact keeps.taken f o d s
          · show read (finalizeAlong host o ds _ _).2 = _
            rw [noted, first, List.append_assoc]
            rfl

theorem diary_letGo (r : Reaped) (s : σ) :
    ∃ es left, Finalized r.handle r.chain r.object.privateData es left ∧
      read (letGo host r s) = read s ++ es := by
  obtain ⟨es, finalized, noted⟩ :=
    diary_finalizeAlong keeps r.handle r.chain r.object.privateData s
  refine ⟨es, _, finalized, ?_⟩
  show read (discardAll host (finalizeAlong host r.handle r.chain r.object.privateData s).1
    (finalizeAlong host r.handle r.chain r.object.privateData s).2) = _
  rw [← noted]
  cases (finalizeAlong host r.handle r.chain r.object.privateData s).1 with
  | none => rfl
  | some data => exact keeps.discard data _

/-- **Objects that are let go fill one block each**, in order. -/
theorem diary_letAllGo (rs : List Reaped) (s : σ) :
    ∃ es, Diary rs es ∧ read (letAllGo host rs s) = read s ++ es := by
  induction rs generalizing s with
  | nil => exact ⟨[], .nil, (List.append_nil _).symm⟩
  | cons r rs ih =>
      obtain ⟨block, left, finalized, first⟩ := diary_letGo keeps r s
      obtain ⟨es, diary, noted⟩ := ih (letGo host r s)
      refine ⟨block ++ es, .cons finalized diary, ?_⟩
      show read (letAllGo host rs (letGo host r s)) = _
      rw [noted, first, List.append_assoc]

end Letting

end HostObjects
