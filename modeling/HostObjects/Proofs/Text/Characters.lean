import HostObjects.Text

/-!
# Characters and code units

A text of characters is read back character by character: the units of one character
are read as that character whatever follows (`decode_charUnits_append`), because no
unit that stands alone in a character is a surrogate.

The other way round a text that is read and written again keeps its length, and changes
at the surrogates without a partner only, where the replacement character takes their
place (`recode_eq`).  Whether a surrogate has its partner is seen from its two
neighbours (`unpairedAt`).  Reading pairs from the left, but no unit both opens and
closes a pair, so a pair once formed never takes a unit from the next one, and the
neighbours decide.
-/

namespace HostObjects.Text

variable {c : Char} {u v : UInt16} {us : List UInt16}

theorem eq_iff_units {a b : Text} : a = b ↔ a.units = b.units := by
  cases a
  cases b
  exact Text.mk.injEq _ _ ▸ Iff.rfl

/-! ### Surrogates -/

/-- The unit of the replacement character. -/
def replacementUnit : UInt16 := 0xFFFD

theorem isLeading_iff : isLeading u = true ↔ 0xD800 ≤ u.toNat ∧ u.toNat < 0xDC00 := by
  simp [isLeading]

theorem isTrailing_iff : isTrailing u = true ↔ 0xDC00 ≤ u.toNat ∧ u.toNat < 0xE000 := by
  simp [isTrailing]

theorem isTrailing_of_isLeading (lead : isLeading u = true) : isTrailing u = false := by
  rw [isLeading_iff] at lead
  simp only [isTrailing, Bool.and_eq_false_iff, decide_eq_false_iff_not]
  omega

theorem isLeading_of_isTrailing (trail : isTrailing u = true) : isLeading u = false := by
  rw [isTrailing_iff] at trail
  simp only [isLeading, Bool.and_eq_false_iff, decide_eq_false_iff_not]
  omega

theorem toNat_ofNat_of_lt {n : Nat} (below : n < 0xD800) : (Char.ofNat n).toNat = n := by
  rw [Char.ofNat, dif_pos (Or.inl below)]
  rfl

theorem toNat_ofNat_of_beyond {n : Nat} (above : 0xDFFF < n) (below : n < 0x110000) :
    (Char.ofNat n).toNat = n := by
  rw [Char.ofNat, dif_pos (Or.inr ⟨above, below⟩)]
  rfl

/-! ### The units of one character -/

theorem charUnits_of_lt (low : c.toNat < 0x10000) : charUnits c = [UInt16.ofNat c.toNat] :=
  if_pos low

theorem toNat_pairChar (lead : isLeading u = true) (trail : isTrailing v = true) :
    (pairChar u v).toNat =
      0x10000 + (u.toNat - 0xD800) * 0x400 + (v.toNat - 0xDC00) := by
  rw [isLeading_iff] at lead
  rw [isTrailing_iff] at trail
  exact toNat_ofNat_of_beyond (by omega) (by omega)

/-- A pair of surrogates is written as it was read. -/
theorem charUnits_pairChar (lead : isLeading u = true) (trail : isTrailing v = true) :
    charUnits (pairChar u v) = [u, v] := by
  have code := toNat_pairChar lead trail
  rw [isLeading_iff] at lead
  rw [isTrailing_iff] at trail
  have first : 0xD800 + ((pairChar u v).toNat - 0x10000) / 0x400 = u.toNat := by omega
  have second : 0xDC00 + ((pairChar u v).toNat - 0x10000) % 0x400 = v.toNat := by omega
  rw [charUnits, if_neg (by omega), first, second, UInt16.ofNat_toNat, UInt16.ofNat_toNat]

/-- A unit that is read alone is written as it was, unless it is a surrogate. -/
theorem charUnits_loneChar (u : UInt16) :
    charUnits (loneChar u) =
      [if isLeading u || isTrailing u then replacementUnit else u] := by
  unfold loneChar
  split
  · rfl
  · next alone =>
    have range := u.toNat_lt
    have code : (Char.ofNat u.toNat).toNat = u.toNat := by
      simp only [isLeading, isTrailing, Bool.or_eq_true, Bool.and_eq_true,
        decide_eq_true_eq] at alone
      by_cases below : u.toNat < 0xD800
      · exact toNat_ofNat_of_lt below
      · exact toNat_ofNat_of_beyond (by omega) (by omega)
    rw [charUnits_of_lt (by omega), code, UInt16.ofNat_toNat]

/-! ### Reading units -/

/-- Two units that are no pair: the first may open one, but the second does not close it. -/
def Apart (u : UInt16) (us : List UInt16) : Prop :=
  ∀ v, us.head? = some v → (isLeading u && isTrailing v) = false

theorem apart_nil (u : UInt16) : Apart u [] := fun _ first => by cases first

theorem apart_of_not_leading (alone : isLeading u = false) : Apart u us := by
  intro v _
  simp [alone]

theorem decode_pair (lead : isLeading u = true) (trail : isTrailing v = true) :
    decode (u :: v :: us) = pairChar u v :: decode us := by
  rw [decode, if_pos (by simp [lead, trail])]

theorem decode_of_apart (apart : Apart u us) : decode (u :: us) = loneChar u :: decode us := by
  cases us with
  | nil => rfl
  | cons v rest =>
    have single := apart v rfl
    rw [decode, if_neg (by simp [single])]

/-- **The units of a character are read as that character**, whatever follows them. -/
theorem decode_charUnits_append (c : Char) (us : List UInt16) :
    decode (charUnits c ++ us) = c :: decode us := by
  have scalar : c.toNat < 0xD800 ∨ 0xDFFF < c.toNat ∧ c.toNat < 0x110000 := c.valid
  by_cases low : c.toNat < 0x10000
  · have same : (UInt16.ofNat c.toNat).toNat = c.toNat := UInt16.toNat_ofNat_of_lt' low
    have alone : isLeading (UInt16.ofNat c.toNat) = false ∧
        isTrailing (UInt16.ofNat c.toNat) = false := by
      simp only [isLeading, isTrailing, same, Bool.and_eq_false_iff, decide_eq_false_iff_not]
      omega
    rw [charUnits_of_lt low, List.singleton_append,
      decode_of_apart (apart_of_not_leading alone.1), loneChar, alone.1, alone.2,
      Bool.or_self, if_neg (by simp), same, Char.ofNat_toNat]
  · have lead : (UInt16.ofNat (0xD800 + (c.toNat - 0x10000) / 0x400)).toNat =
        0xD800 + (c.toNat - 0x10000) / 0x400 :=
      UInt16.toNat_ofNat_of_lt' (by simp only [UInt16.size]; omega)
    have trail : (UInt16.ofNat (0xDC00 + (c.toNat - 0x10000) % 0x400)).toNat =
        0xDC00 + (c.toNat - 0x10000) % 0x400 :=
      UInt16.toNat_ofNat_of_lt' (by simp only [UInt16.size]; omega)
    have leads : isLeading (UInt16.ofNat (0xD800 + (c.toNat - 0x10000) / 0x400)) = true := by
      rw [isLeading_iff, lead]
      omega
    have trails : isTrailing (UInt16.ofNat (0xDC00 + (c.toNat - 0x10000) % 0x400)) = true := by
      rw [isTrailing_iff, trail]
      omega
    rw [charUnits, if_neg low]
    refine (decode_pair leads trails).trans (congrArg (· :: decode us) ?_)
    rw [← Char.toNat_inj, toNat_pairChar leads trails, lead, trail]
    omega

/-- A text of characters has these characters. -/
theorem chars_ofChars (cs : List Char) : (ofChars cs).chars = cs := by
  show decode (cs.flatMap charUnits) = cs
  induction cs with
  | nil => rfl
  | cons c cs ih => rw [List.flatMap_cons, decode_charUnits_append, ih]

theorem ofChars_inj {cs ds : List Char} : ofChars cs = ofChars ds ↔ cs = ds := by
  refine ⟨fun same => ?_, congrArg ofChars⟩
  rw [← chars_ofChars cs, same, chars_ofChars]

theorem toString_ofString (s : String) : (ofString s).toString = s := by
  rw [Text.toString, ofString, chars_ofChars, String.ofList_toList]

/-! ### Units read and written again -/

/-- The units of the characters that are read. -/
def recode (us : List UInt16) : List UInt16 := (decode us).flatMap charUnits

theorem units_ofString_toString (t : Text) : (ofString t.toString).units = recode t.units := by
  simp [ofString, ofChars, Text.toString, recode, chars]

theorem recode_pair (lead : isLeading u = true) (trail : isTrailing v = true) :
    recode (u :: v :: us) = u :: v :: recode us := by
  rw [recode, decode_pair lead trail, List.flatMap_cons, charUnits_pairChar lead trail]
  rfl

theorem recode_of_apart (apart : Apart u us) :
    recode (u :: us) = (if isLeading u || isTrailing u then replacementUnit else u) ::
      recode us := by
  rw [recode, decode_of_apart apart, List.flatMap_cons, charUnits_loneChar]
  rfl

/-- The unit before a place. -/
def before? (us : List UInt16) : Nat → Option UInt16
  | 0 => none
  | i + 1 => us[i]?

/-- Whether a surrogate stands at a place without its partner: one that opens a pair not
before one that closes it, or the other way round. -/
def unpairedAt (us : List UInt16) (i : Nat) : Bool :=
  us[i]?.any fun u =>
    (isLeading u && !us[i + 1]?.any isTrailing) || (isTrailing u && !(before? us i).any isLeading)

theorem unpairedAt_succ (apart : Apart u us) (i : Nat) :
    unpairedAt (u :: us) (i + 1) = unpairedAt us i := by
  cases i with
  | zero =>
    cases us with
    | nil => rfl
    | cons v rest =>
      have single := apart v rfl
      cases trail : isTrailing v with
      | false => simp [unpairedAt, before?, trail]
      | true =>
        have alone : isLeading u = false := by simpa [trail] using single
        simp [unpairedAt, before?, trail, alone]
  | succ i => rfl

theorem unpairedAt_zero (apart : Apart u us) :
    unpairedAt (u :: us) 0 = (isLeading u || isTrailing u) := by
  cases us with
  | nil => simp [unpairedAt, before?]
  | cons v rest =>
    have single := apart v rfl
    cases lead : isLeading u with
    | false => simp [unpairedAt, before?, lead]
    | true =>
      have alone : isTrailing v = false := by simpa [lead] using single
      simp [unpairedAt, before?, lead, alone]

theorem unpairedAt_pair_zero (lead : isLeading u = true) (trail : isTrailing v = true) :
    unpairedAt (u :: v :: us) 0 = false := by
  simp [unpairedAt, trail, isTrailing_of_isLeading lead]

theorem unpairedAt_pair_one (lead : isLeading u = true) (trail : isTrailing v = true) :
    unpairedAt (u :: v :: us) 1 = false := by
  simp [unpairedAt, before?, lead, isLeading_of_isTrailing trail]

theorem unpairedAt_pair_succ (trail : isTrailing v = true) (i : Nat) :
    unpairedAt (u :: v :: us) (i + 2) = unpairedAt us i :=
  -- the second neighbour is out of sight
  unpairedAt_succ (apart_of_not_leading (isLeading_of_isTrailing trail)) i

theorem apart_of_not_pair (single : ¬(isLeading u && isTrailing v) = true) : Apart u (v :: us) := by
  intro w first
  cases first
  simpa using single

/-- **Reading and writing replaces the surrogates without a partner** and nothing else. -/
theorem recode_eq (us : List UInt16) :
    recode us = us.mapIdx fun i u => if unpairedAt us i then replacementUnit else u := by
  fun_induction decode us with
  | case1 => rfl
  | case2 u =>
    rw [recode_of_apart (apart_nil u)]
    simp [recode, unpairedAt_zero (apart_nil u)]
  | case3 u v rest pair ih =>
    obtain ⟨lead, trail⟩ := Bool.and_eq_true_iff.mp pair
    rw [recode_pair lead trail, ih]
    simp [List.mapIdx_cons, unpairedAt_pair_zero lead trail, unpairedAt_pair_one lead trail,
      unpairedAt_pair_succ trail]
  | case4 u v rest single ih =>
    have apart : Apart u (v :: rest) := apart_of_not_pair single
    rw [recode_of_apart apart, ih]
    simp [List.mapIdx_cons, unpairedAt_zero apart, unpairedAt_succ apart]

theorem eq_replacement_of_surrogate (surrogate : (isLeading u || isTrailing u) = true) :
    loneChar u = replacement := if_pos surrogate

/-- Where no replacement character is read nothing was replaced. -/
theorem recode_of_not_mem (spared : replacement ∉ decode us) : recode us = us := by
  have alone : ∀ {u : UInt16} {cs : List Char}, replacement ∉ loneChar u :: cs →
      (isLeading u || isTrailing u) = false := fun spared =>
    Bool.eq_false_iff.mpr fun surrogate =>
      spared (List.mem_cons.mpr (Or.inl (eq_replacement_of_surrogate surrogate).symm))
  fun_induction decode us with
  | case1 => rfl
  | case2 u =>
    rw [recode_of_apart (apart_nil u), alone spared]
    rfl
  | case3 u v rest pair ih =>
    obtain ⟨lead, trail⟩ := Bool.and_eq_true_iff.mp pair
    rw [recode_pair lead trail, ih fun mem => spared (List.mem_cons_of_mem _ mem)]
  | case4 u v rest single ih =>
    rw [recode_of_apart (apart_of_not_pair single), alone spared,
      ih fun mem => spared (List.mem_cons_of_mem _ mem)]
    rfl

/-- A text that is read without a replacement character is the text of its characters. -/
theorem ofChars_chars_of_not_mem {t : Text} (spared : replacement ∉ t.chars) :
    ofChars t.chars = t := eq_iff_units.mpr (recode_of_not_mem spared)

theorem forall_unpairedAt_of_apart (apart : Apart u us) :
    (∀ i, unpairedAt (u :: us) i = false) ↔
      (isLeading u || isTrailing u) = false ∧ ∀ i, unpairedAt us i = false := by
  rw [← Nat.and_forall_add_one, unpairedAt_zero apart]
  simp only [unpairedAt_succ apart]

theorem forall_unpairedAt_pair (lead : isLeading u = true) (trail : isTrailing v = true) :
    (∀ i, unpairedAt (u :: v :: us) i = false) ↔ ∀ i, unpairedAt us i = false := by
  rw [← Nat.and_forall_add_one, ← Nat.and_forall_add_one]
  simp only [unpairedAt_pair_zero lead trail, Nat.zero_add, unpairedAt_pair_one lead trail,
    Nat.add_assoc, unpairedAt_pair_succ trail, true_and]

/-- Units are well-formed if no surrogate is without its partner. -/
theorem wellFormedUnits_iff (us : List UInt16) :
    wellFormedUnits us = true ↔ ∀ i, unpairedAt us i = false := by
  fun_induction wellFormedUnits us with
  | case1 => simp [unpairedAt]
  | case2 u =>
    rw [forall_unpairedAt_of_apart (apart_nil u)]
    simp [unpairedAt]
  | case3 u v rest pair ih =>
    obtain ⟨lead, trail⟩ := Bool.and_eq_true_iff.mp pair
    rw [forall_unpairedAt_pair lead trail, ih]
  | case4 u v rest single ih =>
    rw [forall_unpairedAt_of_apart (apart_of_not_pair single), Bool.and_eq_true_iff, ih,
      Bool.not_eq_true']

/-! ### Texts and strings -/

theorem getElem?_recode (us : List UInt16) (i : Nat) :
    (recode us)[i]? = if unpairedAt us i then some replacementUnit else us[i]? := by
  rw [recode_eq, List.getElem?_mapIdx]
  cases at_i : us[i]? with
  | none => simp [unpairedAt, at_i]
  | some u =>
    rw [Option.map_some]
    split <;> rfl

/-- A surrogate is not the unit that takes its place. -/
theorem ne_replacementUnit_of_unpairedAt {i : Nat} (alone : unpairedAt us i = true) :
    us[i]? ≠ some replacementUnit := by
  intro replaced
  have neither : isLeading replacementUnit = false ∧ isTrailing replacementUnit = false := by decide
  simp [unpairedAt, replaced, neither] at alone

theorem recode_eq_self_iff (us : List UInt16) : recode us = us ↔ wellFormedUnits us = true := by
  rw [wellFormedUnits_iff]
  constructor
  · intro same i
    refine Bool.eq_false_iff.mpr fun alone => ?_
    have replaced := getElem?_recode us i
    rw [same, if_pos alone] at replaced
    exact ne_replacementUnit_of_unpairedAt alone replaced
  · intro paired
    apply List.ext_getElem?
    intro i
    rw [getElem?_recode, paired i]
    rfl

theorem ofString_toString_eq_iff (t : Text) : ofString t.toString = t ↔ t.isWellFormed = true := by
  rw [isWellFormed, ← recode_eq_self_iff, ← units_ofString_toString, eq_iff_units]

theorem eq_ofString_iff (t : Text) (s : String) :
    t = ofString s ↔ t.isWellFormed = true ∧ t.toString = s := by
  constructor
  · rintro rfl
    rw [← ofString_toString_eq_iff, toString_ofString]
    exact ⟨rfl, rfl⟩
  · rintro ⟨paired, rfl⟩
    exact ((ofString_toString_eq_iff t).mpr paired).symm

/-- **Converting to characters and back loses only surrogates without a partner.**  A string
comes back from its text.  A text keeps its length and every other unit, and equals what
comes back exactly if it has no such surrogate.  Comparing a text with a string is
comparing it with the text of the string. -/
theorem conversion_spares_pairs :
    (∀ s : String, (ofString s).toString = s) ∧
    (∀ t : Text,
      (ofString t.toString).length = t.length ∧
      (ofString t.toString = t ↔ t.isWellFormed = true) ∧
      (t.isWellFormed = true ↔ ∀ i, unpairedAt t.units i = false) ∧
      ∀ i, (ofString t.toString).units[i]? =
          (if unpairedAt t.units i then some replacementUnit else t.units[i]?) ∧
        ((ofString t.toString).units[i]? ≠ t.units[i]? ↔ unpairedAt t.units i = true)) ∧
    ∀ (t : Text) (s : String),
      (t.equalsString s = true ↔ t = ofString s) ∧
      (t = ofString s ↔ t.isWellFormed = true ∧ t.toString = s) := by
  refine ⟨toString_ofString, fun t => ⟨?_, ofString_toString_eq_iff t, wellFormedUnits_iff t.units,
    fun i => ⟨?_, ?_⟩⟩, fun t s => ⟨beq_iff_eq, eq_ofString_iff t s⟩⟩
  · rw [length, units_ofString_toString, recode_eq, List.length_mapIdx, length]
  · rw [units_ofString_toString, getElem?_recode]
  · rw [units_ofString_toString, getElem?_recode]
    split
    · next alone =>
      simpa [alone] using (ne_replacementUnit_of_unpairedAt alone).symm
    · next paired => simp [paired]

/-- A text with a surrogate that opens no pair, a pair in the wrong order, and a pair. -/
example :
    recode [0xD800, 0x61, 0xDC00, 0xD800, 0xD83D, 0xDE00, 0xD800] =
      [0xFFFD, 0x61, 0xFFFD, 0xFFFD, 0xD83D, 0xDE00, 0xFFFD] := by decide

end HostObjects.Text
