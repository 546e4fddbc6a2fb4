import HostObjects.Text.Index
import HostObjects.Proofs.Text.Characters

/-!
# Array indexes and their numerals

Reading digits into a 32-bit number fails only at a unit that is no digit or if the number
that all the digits denote is too great (`takeDigits?_eq_some_iff`).  The reader checks the
product and the sum at every digit; the number denoted so far never shrinks, so a check
that fails early fails for a number that is too great at the end.

A sequence of digits without a leading zero is the numeral of the number it denotes
(`eq_units_ofNat`), and numerals are of this kind.  So the texts that are read as an index
are exactly the numerals of the numbers below the bound (`index_iff_numeral`).
-/

namespace HostObjects.Text

variable {n d : Nat} {u : UInt16} {us : List UInt16}

/-! ### The number that digits denote -/

/-- The number that digits denote when they follow those of a number. -/
def valueAfter (n : Nat) (us : List UInt16) : Nat :=
  us.foldl (fun n u => n * 10 + (u.toNat - 48)) n

theorem valueAfter_nil (n : Nat) : valueAfter n [] = n := rfl

theorem valueAfter_cons (n : Nat) (u : UInt16) (us : List UInt16) :
    valueAfter n (u :: us) = valueAfter (n * 10 + (u.toNat - 48)) us := by
  rw [valueAfter, List.foldl_cons, valueAfter]

theorem valueAfter_append (n : Nat) (us vs : List UInt16) :
    valueAfter n (us ++ vs) = valueAfter (valueAfter n us) vs := List.foldl_append

/-- More digits make no number smaller. -/
theorem le_valueAfter (n : Nat) (us : List UInt16) : n ≤ valueAfter n us := by
  induction us generalizing n with
  | nil => exact Nat.le_refl n
  | cons u us ih =>
    rw [valueAfter_cons]
    have more := ih (n * 10 + (u.toNat - 48))
    omega

theorem isDigit_iff : isDigit u = true ↔ 48 ≤ u.toNat ∧ u.toNat ≤ 57 := by simp [isDigit]

/-! ### Reading digits -/

theorem times?_eq_some_iff {a b k : UInt32} :
    times? a b = some k ↔ a.toNat * b.toNat = k.toNat := by
  have range := k.toNat_lt
  unfold times?
  split
  · next fits => rw [Option.some_inj, ← UInt32.toNat_inj, UInt32.toNat_mul, Nat.mod_eq_of_lt fits]
  · next great =>
    constructor
    · intro read
      cases read
    · intro same
      omega

theorem plus?_eq_some_iff {a b k : UInt32} :
    plus? a b = some k ↔ a.toNat + b.toNat = k.toNat := by
  have range := k.toNat_lt
  unfold plus?
  split
  · next fits => rw [Option.some_inj, ← UInt32.toNat_inj, UInt32.toNat_add, Nat.mod_eq_of_lt fits]
  · next great =>
    constructor
    · intro read
      cases read
    · intro same
      omega

theorem takeDigit?_eq_some_iff {n k : UInt32} :
    takeDigit? n u = some k ↔ isDigit u = true ∧ n.toNat * 10 + (u.toNat - 48) = k.toNat := by
  unfold takeDigit?
  split
  · next digit =>
    have range := k.toNat_lt
    have value : (u - 48).toUInt32.toNat = u.toNat - 48 := by
      rw [UInt16.toNat_toUInt32, UInt16.toNat_sub_of_le _ _ (isDigit_iff.mp digit).1]
      rfl
    rw [Option.bind_eq_some_iff]
    simp only [times?_eq_some_iff, plus?_eq_some_iff, value]
    constructor
    · rintro ⟨m, product, sum⟩
      exact ⟨digit, by rw [← sum, ← product]; rfl⟩
    · rintro ⟨-, sum⟩
      have fits : n.toNat * 10 < UInt32.size := by
        simp only [UInt32.size]
        omega
      have product : (UInt32.ofNat (n.toNat * 10)).toNat = n.toNat * 10 :=
        UInt32.toNat_ofNat_of_lt' fits
      exact ⟨UInt32.ofNat (n.toNat * 10), product.symm, by rw [product, sum]⟩
  · next other => simp [other]

/-- **Digits are read if they denote a 32-bit number**, and as that number. -/
theorem takeDigits?_eq_some_iff {n k : UInt32} :
    takeDigits? n us = some k ↔
      (∀ u ∈ us, isDigit u = true) ∧ valueAfter n.toNat us = k.toNat := by
  induction us generalizing n with
  | nil => simp [takeDigits?, valueAfter_nil, UInt32.toNat_inj]
  | cons u us ih =>
    rw [takeDigits?, Option.bind_eq_some_iff, List.forall_mem_cons, valueAfter_cons]
    simp only [takeDigit?_eq_some_iff, ih]
    constructor
    · rintro ⟨m, ⟨digit, next⟩, digits, value⟩
      rw [next]
      exact ⟨⟨digit, digits⟩, value⟩
    · rintro ⟨⟨digit, digits⟩, value⟩
      -- what is read so far is at most what is read in the end
      have fits : n.toNat * 10 + (u.toNat - 48) < UInt32.size :=
        Nat.lt_of_le_of_lt (value ▸ le_valueAfter _ us) k.toNat_lt
      have next := UInt32.toNat_ofNat_of_lt' fits
      exact ⟨_, ⟨digit, next.symm⟩, digits, by rw [next, value]⟩

/-! ### Numerals -/

/-- The unit of a digit. -/
def digitUnit (d : Nat) : UInt16 := UInt16.ofNat (48 + d)

theorem toNat_digitUnit (single : d < 10) : (digitUnit d).toNat = 48 + d :=
  UInt16.toNat_ofNat_of_lt' (by simp only [UInt16.size]; omega)

theorem isDigit_digitUnit (single : d < 10) : isDigit (digitUnit d) = true := by
  rw [isDigit_iff, toNat_digitUnit single]
  omega

theorem digitUnit_of_isDigit (digit : isDigit u = true) : digitUnit (u.toNat - 48) = u := by
  rw [isDigit_iff] at digit
  rw [digitUnit, Nat.add_sub_cancel' digit.1, UInt16.ofNat_toNat]

theorem charUnits_digitChar (single : d < 10) : charUnits d.digitChar = [digitUnit d] := by
  have code := Nat.toNat_digitChar_of_lt_ten single
  rw [charUnits_of_lt (by omega), code]
  rfl

theorem units_ofNat_of_lt (single : d < 10) : (ofNat d).units = [digitUnit d] := by
  rw [ofNat, Nat.toDigits_of_lt_base single, ofChars, List.flatMap_singleton,
    charUnits_digitChar single]

/-- The last digit of a numeral. -/
theorem units_ofNat_append (pos : 0 < n) (single : d < 10) :
    (ofNat (10 * n + d)).units = (ofNat n).units ++ [digitUnit d] := by
  rw [ofNat, ← Nat.toDigits_append_toDigits (by decide) pos single]
  simp only [ofChars, List.flatMap_append]
  rw [Nat.toDigits_of_lt_base single, List.flatMap_singleton, charUnits_digitChar single, ofNat,
    ofChars]

/-- What holds of the digits and passes to every number with one digit more holds of all
numbers. -/
theorem digit_induction {P : Nat → Prop} (single : ∀ d, d < 10 → P d)
    (more : ∀ n d, 0 < n → d < 10 → P n → P (10 * n + d)) (n : Nat) : P n := by
  induction n using Nat.strongRecOn with
  | ind n ih =>
    by_cases small : n < 10
    · exact single n small
    · have last := more (n / 10) (n % 10) (by omega) (by omega) (ih (n / 10) (by omega))
      rwa [Nat.div_add_mod] at last

theorem isDigit_of_mem_ofNat (n : Nat) : ∀ u ∈ (ofNat n).units, isDigit u = true := by
  induction n using digit_induction with
  | single d small =>
    rw [units_ofNat_of_lt small, List.forall_mem_singleton]
    exact isDigit_digitUnit small
  | more n d pos small ih =>
    rw [units_ofNat_append pos small, List.forall_mem_append, List.forall_mem_singleton]
    exact ⟨ih, isDigit_digitUnit small⟩

theorem valueAfter_ofNat (n : Nat) : valueAfter 0 (ofNat n).units = n := by
  induction n using digit_induction with
  | single d small =>
    rw [units_ofNat_of_lt small, valueAfter_cons, valueAfter_nil, toNat_digitUnit small]
    omega
  | more n d pos small ih =>
    rw [units_ofNat_append pos small, valueAfter_append, ih, valueAfter_cons, valueAfter_nil,
      toNat_digitUnit small]
    omega

theorem head?_ofNat (n : Nat) : ∃ u, (ofNat n).units.head? = some u ∧ (0 < n → u ≠ 48) := by
  induction n using digit_induction with
  | single d small =>
    refine ⟨digitUnit d, by rw [units_ofNat_of_lt small]; rfl, fun pos zero => ?_⟩
    have code := toNat_digitUnit small
    rw [zero, show (48 : UInt16).toNat = 48 from rfl] at code
    omega
  | more n d pos small ih =>
    obtain ⟨u, first, nonzero⟩ := ih
    refine ⟨u, ?_, fun _ => nonzero pos⟩
    rw [units_ofNat_append pos small, List.head?_append, first]
    rfl

/-- The form of a numeral: not empty, and no zero before other units. -/
def IsReduced (us : List UInt16) : Prop := ¬(us = [] ∨ 1 < us.length ∧ us.head? = some 48)

theorem isReduced_ofNat (n : Nat) : IsReduced (ofNat n).units := by
  obtain ⟨u, first, nonzero⟩ := head?_ofNat n
  rintro (empty | ⟨long, zero⟩)
  · rw [empty] at first
    cases first
  · rw [first, Option.some_inj] at zero
    have null : n = 0 := Nat.eq_zero_of_not_pos fun pos => nonzero pos zero
    rw [null, units_ofNat_of_lt (by decide)] at long
    exact Nat.lt_irrefl 1 long

theorem units_ofNat_valueAfter (pos : 0 < n) (digits : ∀ u ∈ us, isDigit u = true) :
    (ofNat (valueAfter n us)).units = (ofNat n).units ++ us := by
  induction us generalizing n with
  | nil => rw [valueAfter_nil, List.append_nil]
  | cons u us ih =>
    obtain ⟨digit, digits⟩ := List.forall_mem_cons.mp digits
    have small : u.toNat - 48 < 10 := by
      have range := isDigit_iff.mp digit
      omega
    rw [valueAfter_cons, ih (by omega) digits, Nat.mul_comm n 10, units_ofNat_append pos small,
      digitUnit_of_isDigit digit, List.append_assoc, List.singleton_append]

/-- **Digits without a leading zero are the numeral of what they denote.** -/
theorem eq_units_ofNat (reduced : IsReduced us) (digits : ∀ u ∈ us, isDigit u = true) :
    us = (ofNat (valueAfter 0 us)).units := by
  cases us with
  | nil => exact absurd (Or.inl rfl) reduced
  | cons u us =>
    obtain ⟨digit, digits⟩ := List.forall_mem_cons.mp digits
    have range := isDigit_iff.mp digit
    have small : u.toNat - 48 < 10 := by omega
    have alone : (ofNat (u.toNat - 48)).units = [u] := by
      rw [units_ofNat_of_lt small, digitUnit_of_isDigit digit]
    rw [valueAfter_cons, Nat.zero_mul, Nat.zero_add]
    by_cases pos : 0 < u.toNat - 48
    · rw [units_ofNat_valueAfter pos digits, alone, List.singleton_append]
    · have zero : u = 48 := UInt16.toNat_inj.mp (show u.toNat = 48 by omega)
      cases us with
      | nil => exact alone.symm
      | cons v us =>
        refine absurd (Or.inr ⟨?_, congrArg some zero⟩) reduced
        simp only [List.length_cons]
        omega

/-! ### Indexes -/

theorem index?_of_reduced {t : Text} (reduced : IsReduced t.units) :
    t.index? = (takeDigits? 0 t.units).filter (· ≠ indexBound) := if_neg reduced

theorem index?_of_not_reduced {t : Text} (other : ¬IsReduced t.units) : t.index? = none :=
  if_pos (Classical.not_not.mp other)

theorem lt_indexBound_iff {k : UInt32} : k < indexBound ↔ k ≠ indexBound := by
  have range := k.toNat_lt
  rw [UInt32.lt_iff_toNat_lt, ne_eq, ← UInt32.toNat_inj]
  simp only [indexBound, UInt32.reduceToNat]
  omega

theorem index?_ofNat {k : UInt32} (below : k < indexBound) : (ofNat k.toNat).index? = some k := by
  have read : takeDigits? 0 (ofNat k.toNat).units = some k :=
    takeDigits?_eq_some_iff.mpr ⟨isDigit_of_mem_ofNat _, valueAfter_ofNat _⟩
  rw [index?_of_reduced (isReduced_ofNat _), read, Option.filter_some,
    if_pos (by simpa using lt_indexBound_iff.mp below)]

theorem of_index?_eq_some {t : Text} {k : UInt32} (read : t.index? = some k) :
    k < indexBound ∧ t = ofNat k.toNat := by
  by_cases reduced : IsReduced t.units
  · rw [index?_of_reduced reduced, Option.filter_eq_some_iff] at read
    obtain ⟨digits, value⟩ := takeDigits?_eq_some_iff.mp read.1
    refine ⟨lt_indexBound_iff.mpr (by simpa using read.2), eq_iff_units.mpr ?_⟩
    rw [← value]
    exact eq_units_ofNat reduced digits
  · rw [index?_of_not_reduced reduced] at read
    cases read

theorem of_index?_eq_none {t : Text} (reduced : IsReduced t.units)
    (digits : ∀ u ∈ t.units, isDigit u = true) (unread : t.index? = none) :
    2 ^ 32 - 1 ≤ valueAfter 0 t.units := by
  refine Nat.not_lt.mp fun small => ?_
  have fits : valueAfter 0 t.units < UInt32.size := by
    simp only [UInt32.size]
    omega
  have code := UInt32.toNat_ofNat_of_lt' fits
  have below : UInt32.ofNat (valueAfter 0 t.units) < indexBound := by
    rw [UInt32.lt_iff_toNat_lt, code]
    exact small
  have numeral : t = ofNat (UInt32.ofNat (valueAfter 0 t.units)).toNat := by
    rw [code, eq_iff_units]
    exact eq_units_ofNat reduced digits
  rw [numeral, index?_ofNat below] at unread
  cases unread

/-- **A text is an index exactly if it is the numeral of a number below the bound.**  It is
none if it is empty, has a zero before other units or a unit that is no digit, or denotes
a number from the bound on, and for no other reason. -/
theorem index_iff_numeral :
    (∀ (t : Text) (k : UInt32), t.index? = some k ↔ k < indexBound ∧ t = ofNat k.toNat) ∧
    ∀ t : Text, t.index? = none ↔
      t.units = [] ∨ (1 < t.units.length ∧ t.units.head? = some 48) ∨
      (∃ u ∈ t.units, isDigit u = false) ∨ 2 ^ 32 - 1 ≤ valueAfter 0 t.units := by
  refine ⟨fun t k => ⟨of_index?_eq_some, ?_⟩, fun t => ⟨fun unread => ?_, fun reason => ?_⟩⟩
  · rintro ⟨below, rfl⟩
    exact index?_ofNat below
  · refine Classical.byContradiction fun other => ?_
    simp only [not_or, not_exists, not_and, Bool.not_eq_false] at other
    obtain ⟨nonempty, leading, digits, value⟩ := other
    refine value (of_index?_eq_none ?_ digits unread)
    rintro (empty | ⟨long, zero⟩)
    · exact nonempty empty
    · exact leading long zero
  · refine Option.eq_none_iff_forall_ne_some.mpr fun k read => ?_
    obtain ⟨below, rfl⟩ := of_index?_eq_some read
    obtain empty | leading | ⟨u, mem, other⟩ | great := reason
    · exact isReduced_ofNat k.toNat (Or.inl empty)
    · exact isReduced_ofNat k.toNat (Or.inr leading)
    · rw [isDigit_of_mem_ofNat _ u mem] at other
      cases other
    · rw [valueAfter_ofNat] at great
      exact Nat.not_lt.mpr great (UInt32.lt_iff_toNat_lt.mp below)

end HostObjects.Text
