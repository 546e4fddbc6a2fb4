import HostObjects.Proofs.Heap.Footprint

/-!
# Scheduled collections

A heap whose collections are deferred does not collect when it passes its threshold.  It
notes that a collection is due, and collects at once only where it would pass its limit.
So below the limit creating something lets nothing die (`Creation.quiet_of_room`), beyond
the threshold it leaves a collection due or has run one (`Creation.due_of_passed`), and a
collection that is due stays due until one runs, whatever commands follow
(`due_along`).  That last fact is `Metered`, for the mode may change at any time and
every command that makes room may collect.
-/

namespace HostObjects.Heap

variable {h h' : Heap} {held : ClassId → Bool}

/-! ### Creating something -/

/-- What heaps make room for, one at a time. -/
inductive Creation where
  | object (obj : HostObject)
  /-- Define a property that is not there. -/
  | defined (o : Handle) (p : Property)
  /-- Write a property that is not there. -/
  | written (o : Handle) (p : Property)

namespace Creation

/-- The bytes that room is made for. -/
def bytes : Creation → Nat
  | object obj => obj.size
  | defined _ _ | written _ _ => HostObject.propertyBytes

/-- There is no property of the name yet, and the value may be stored. -/
def IsNew (h : Heap) : Creation → Prop
  | object _ => True
  | defined o p | written o p =>
    h.checkStorable p.value = .ok () ∧ h.hasOwn o p.name = .ok false

/-- The heap after the creation, whether it failed or not. -/
def run (held : ClassId → Bool) (h : Heap) : Creation → Heap
  | object obj => (alloc held obj h).2
  | defined o p => (defineOwn held o p h).2
  | written o p => (putOwn held o p h).2

/-- The heap with the new thing put in, once there is room. -/
def put (h : Heap) : Creation → Heap
  | object obj => (h.place obj).2
  | defined o p | written o p => (change o (withAdded p) h).2

variable {c : Creation}

theorem run_defined {o : Handle} {p : Property} (new : (defined o p).IsNew h) :
    (defined o p).run held h =
      match makeRoom held HostObject.propertyBytes h with
      | (.ok _, h') => (defined o p).put h'
      | (.error _, h') => h' := by
  obtain ⟨storable, absent⟩ := new
  simp only [run, defineOwn_of_missing storable (ownProperty_of_hasOwn absent), bind_apply]
  rcases makeRoom held HostObject.propertyBytes h with ⟨_ | _, h'⟩ <;> rfl

/-- A creation makes room, and then puts the new thing in if there is room. -/
theorem run_eq (new : c.IsNew h) :
    c.run held h =
      match makeRoom held c.bytes h with
      | (.ok _, h') => c.put h'
      | (.error _, h') => h' := by
  cases c with
  | object obj =>
      simp only [run, bytes, Heap.alloc, bind_apply]
      rcases makeRoom held obj.size h with ⟨_ | _, h'⟩ <;> rfl
  | defined o p => exact run_defined new
  | written o p =>
      have missing := ownProperty_of_hasOwn new.2
      exact (putOwn_of_missing new.1 missing).trans (run_defined (o := o) (p := p) new)

/-- Putting something in neither collects nor schedules a collection. -/
theorem put_meters (h : Heap) (c : Creation) :
    (c.put h).scheduled = h.scheduled ∧ (c.put h).collections = h.collections ∧
      (c.put h).reaped = h.reaped := by
  cases c with
  | object obj =>
      simp only [put, place]
      split <;> exact ⟨rfl, rfl, rfl⟩
  | defined o p | written o p =>
      simp only [put, change]
      split <;> exact ⟨rfl, rfl, rfl⟩

/-- Whatever was there before something is put in is there after it. -/
theorem isValid_put (empty : FreeIsEmpty h) (c : Creation) {q : Handle}
    (valid : h.isValid q = true) : (c.put h).isValid q = true := by
  cases c with
  | object obj =>
      show (h.place obj).2.isValid q = true
      rw [isValid_place empty, valid, Bool.or_true]
  | defined o p | written o p =>
      show (change o (withAdded p) h).2.isValid q = true
      unfold change
      cases found : h.object o with
      | ok obj =>
          show (h.store o.index (withAdded p obj)).isValid q = true
          rwa [isValid_store found]
      | error e => exact valid

/-- **Within the limit a deferred heap lets nothing die** to create something: no
collection runs, and no object is taken out of its slot. -/
theorem quiet_of_room (ok : Intact h) (deferred : h.mode = .deferred) (new : c.IsNew h)
    (room : h.used + c.bytes ≤ h.limits.maxBytes) :
    (c.run held h).collections = h.collections ∧ (c.run held h).reaped = h.reaped ∧
      ∀ q, h.isValid q = true → (c.run held h).isValid q = true := by
  have fits := Nat.not_lt.mpr room
  obtain ⟨h', made, same, due⟩ : ∃ h', makeRoom held c.bytes h = (.ok (), h') ∧
      SameTable h h' ∧ h'.collections = h.collections ∧ h'.reaped = h.reaped := by
    rw [makeRoom_of_deferred deferred, if_neg fits]
    split
    · exact ⟨_, if_neg fits, ⟨rfl, rfl, rfl, rfl, rfl⟩, rfl, rfl⟩
    · exact ⟨_, if_neg fits, ⟨rfl, rfl, rfl, rfl, rfl⟩, rfl, rfl⟩
  have empty : FreeIsEmpty h' := (ok.congr same).freeIsEmpty
  obtain ⟨-, collections, reaped⟩ := put_meters h' c
  rw [run_eq new, made]
  refine ⟨collections.trans due.1, reaped.trans due.2, fun q valid => isValid_put empty c ?_⟩
  rwa [same.isValid]

/-- **Beyond the threshold a collection is due afterwards**, or one has run. -/
theorem due_of_passed (deferred : h.mode = .deferred) (new : c.IsNew h)
    (passed : h.limits.threshold < h.used + c.bytes) :
    (c.run held h).scheduled = true ∨ (c.run held h).collections = h.collections + 1 := by
  have room : (makeRoom held c.bytes h).2.scheduled = true ∨
      (makeRoom held c.bytes h).2.collections = h.collections + 1 := by
    rw [makeRoom_of_deferred deferred, if_pos passed, verdict_snd]
    split
    · exact Or.inr rfl
    · exact Or.inl rfl
  rw [run_eq new]
  rcases run : makeRoom held c.bytes h with ⟨e | _, h'⟩ <;> rw [run] at room
  · exact room
  · obtain ⟨scheduled, collections, -⟩ := put_meters h' c
    rw [scheduled, collections]
    exact room

end Creation

/-! ### A collection that is due -/

/-- A collection is due, or more collections have run than a number. -/
structure Due (ran : Nat) (h : Heap) : Prop where
  le : ran ≤ h.collections
  due : h.scheduled = true ∨ ran < h.collections

theorem Due.collect {ran : Nat} (due : Due ran h) (held : ClassId → Bool) :
    Due ran (h.collect held) where
  le := Nat.le_succ_of_le due.le
  due := Or.inr (Nat.lt_succ_of_le due.le)

theorem Due.congr {ran : Nat} (due : Due ran h) (scheduled : h'.scheduled = h.scheduled)
    (collections : h'.collections = h.collections) : Due ran h' where
  le := collections ▸ due.le
  due := by
    rw [scheduled, collections]
    exact due.due

theorem Due.makeRoom {ran : Nat} (due : Due ran h) (held : ClassId → Bool) (bytes : Nat) :
    Due ran (makeRoom held bytes h).2 := by
  rcases makeRoom_state held bytes h with eq | eq | eq
  · rwa [eq]
  · rw [eq]
    exact ⟨due.le, Or.inl rfl⟩
  · rw [eq]
    exact due.collect held

theorem Due.put {ran : Nat} (due : Due ran h) (c : Creation) : Due ran (c.put h) :=
  have meters := c.put_meters h
  due.congr meters.1 meters.2.1

theorem metered_due (ran : Nat) : Metered (Due ran) where
  collect held _ due := due.collect held
  alloc held obj :=
    have room : Preserves (Due ran) (makeRoom held obj.size) :=
      Preserves.of_state fun _ due => due.makeRoom held _
    room.bind fun _ => Preserves.of_state fun _ due => due.put (.object obj)
  add held o p :=
    have room : Preserves (Due ran) (makeRoom held HostObject.propertyBytes) :=
      Preserves.of_state fun _ due => due.makeRoom held _
    room.bind fun _ => Preserves.of_state fun _ due => due.put (.defined o p)
  store _ _ _ _ _ _ due := due.congr rfl rfl
  beside _ _ _ _ scheduled collections due := due.congr scheduled collections

/-- What commands keep holds in all states of a run. -/
theorem Unbroken.states {I : Heap → Prop} (unbroken : Unbroken I) (hs : I h)
    (turns : List Turn) : ∀ h' ∈ states h turns, I h' := by
  induction turns generalizing h with
  | nil =>
      intro h' mem
      rwa [List.mem_singleton.mp mem]
  | cons t ts ih =>
      intro h' mem
      rcases List.mem_cons.mp mem with rfl | mem
      · exact hs
      · exact ih (unbroken t.held h t.command hs) h' mem

/-- **A collection that is due stays due until one runs**, in all states of a run. -/
theorem due_along (due : h.scheduled = true) (turns : List Turn) :
    ∀ h' ∈ states h turns, h'.scheduled = true ∨ h.collections < h'.collections := by
  have start : Due h.collections h := ⟨Nat.le_refl _, Or.inl due⟩
  exact fun h' mem => ((metered_due _).unbroken.states start turns h' mem).due

end HostObjects.Heap
