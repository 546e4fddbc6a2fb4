import HostObjects.Proofs.Number.Literal
import HostObjects.Text.Index

/-!
# Numerals and the numbers they denote

A numeral is laid out in one of four ways: zeros before the digits, the point among the
digits, zeros after the digits, or an exponent.  Taking the mark of a whole number off
changes the third layout only, because the last digit of a shortest decimal is not zero
and an exponent has no point.  What is left is a decimal that the reader takes apart
(`bare_ofDecimal`), and the shortest decimal of a magnitude is read as the magnitude.  So
a number is the number of its text (`toDouble_toText`).
-/

namespace HostObjects

open Shortest

namespace Numeral

open Literal

variable {cs ds : List Char} {n : Nat}

/-! ### The mark of a whole number -/

theorem bare_wholeMark (cs : List Char) : bare (cs ++ wholeMark) = cs := by
  have ends : wholeMark.isSuffixOf (cs ++ wholeMark) = true :=
    List.isSuffixOf_iff_suffix.mpr (List.suffix_append cs wholeMark)
  rw [bare, if_pos ends, List.length_append, Nat.add_sub_cancel, List.take_left]

theorem bare_of_not_suffix (other : ¬wholeMark <:+ cs) : bare cs = cs :=
  if_neg fun ends => other (List.isSuffixOf_iff_suffix.mp ends)

/-- Digits that do not end in zero have no mark of a whole number behind them. -/
theorem bare_append_fraction (nonempty : ds ≠ []) (ends : ¬['0'] <:+ ds) :
    bare (cs ++ ds) = cs ++ ds := by
  refine bare_of_not_suffix fun mark => ends ?_
  have zero : ['0'] <:+ cs ++ ds := List.IsSuffix.trans (by decide) mark
  exact List.suffix_of_suffix_length_le zero (List.suffix_append cs ds)
    (List.length_pos_iff.mpr nonempty)

theorem point_not_mem_integer (e : Int) : '.' ∉ integer e := by
  rw [integer_eq, List.mem_append]
  rintro (sign | digit)
  · exact absurd (eq_minus_of_mem_sign sign) (by decide)
  · exact absurd (isDigit_of_mem_digitChars digit) (by decide)

theorem integer_ne_nil (e : Int) : integer e ≠ [] := by
  rw [integer_eq]
  exact List.append_ne_nil_of_right_ne_nil _ (digitChars_ne_nil _)

/-- An exponent is no mark of a whole number. -/
theorem bare_append_exponent (cs : List Char) (e : Int) :
    bare (cs ++ 'e' :: integer e) = cs ++ 'e' :: integer e := by
  refine bare_of_not_suffix fun mark => ?_
  have long := List.length_pos_iff.mpr (integer_ne_nil e)
  have inside : wholeMark <:+ 'e' :: integer e :=
    List.suffix_of_suffix_length_le mark (List.suffix_append _ _) (by simp [wholeMark]; omega)
  have point : '.' ∈ 'e' :: integer e := inside.subset (by simp [wholeMark])
  obtain other | mem := List.mem_cons.mp point
  · exact absurd other (by decide)
  · exact point_not_mem_integer e mem

theorem digitChars_not_suffix (ends : n % 10 ≠ 0) : ¬['0'] <:+ digitChars n := by
  rintro ⟨ds, split⟩
  have value : Nat.ofDigitChars 10 (digitChars n) 0 = n := Nat.ofDigitChars_ten_toDigits
  rw [← split, Nat.ofDigitChars_append, Nat.ofDigitChars_cons, Nat.ofDigitChars_nil] at value
  have zero : '0'.toNat = 48 := rfl
  omega

/-! ### The layouts of a numeral -/

/-- A point before the digits. -/
theorem positional_below (ds : List Char) (n : Nat) :
    positional ds (-n : Int) = '0' :: '.' :: zeros n ++ ds := by
  cases n with
  | zero => rfl
  | succ n => rfl

theorem positional_of_pos (pos : 0 < n) : positional ds n =
    if ds.length ≤ n then ds ++ zeros (n - ds.length) ++ wholeMark
    else ds.take n ++ '.' :: ds.drop n := by
  obtain ⟨n, rfl⟩ := Nat.exists_eq_succ_of_ne_zero (Nat.pos_iff_ne_zero.mp pos)
  rfl

/-! ### The layouts without the mark of a whole number -/

variable {digits : Nat}

theorem bare_below (pre : List Char) (ends : digits % 10 ≠ 0) (n : Nat) :
    bare (pre ++ positional (digitChars digits) (-n : Int)) =
      pre ++ ('0' :: '.' :: zeros n ++ digitChars digits) := by
  rw [positional_below, ← List.append_assoc,
    bare_append_fraction (digitChars_ne_nil _) (digitChars_not_suffix ends)]

/-- The mark goes, and the zeros stay. -/
theorem bare_whole (pre : List Char) (pos : 0 < n) (whole : ds.length ≤ n) :
    bare (pre ++ positional ds n) = pre ++ (ds ++ zeros (n - ds.length)) := by
  rw [positional_of_pos pos, if_pos whole, ← List.append_assoc, bare_wholeMark]

theorem bare_inside (pre : List Char) (ends : digits % 10 ≠ 0) (pos : 0 < n)
    (inside : ¬(digitChars digits).length ≤ n) :
    bare (pre ++ positional (digitChars digits) n) =
      pre ++ ((digitChars digits).take n ++ '.' :: (digitChars digits).drop n) := by
  have nonempty : (digitChars digits).drop n ≠ [] := mt List.drop_eq_nil_iff.mp inside
  have last : ¬['0'] <:+ (digitChars digits).drop n := fun zero =>
    digitChars_not_suffix ends (zero.trans (List.drop_suffix _ _))
  have split : pre ++ ((digitChars digits).take n ++ '.' :: (digitChars digits).drop n) =
      pre ++ (digitChars digits).take n ++ ['.'] ++ (digitChars digits).drop n := by simp
  rw [positional_of_pos pos, if_neg inside, split, bare_append_fraction nonempty last]

theorem bare_exponent (pre ds : List Char) (point : Int) :
    bare (pre ++ scientific ds point) = pre ++ scientific ds point := by
  rw [scientific, ← List.append_assoc, bare_append_exponent]

/-! ### The parts of a numeral -/

/-- The parts of a decimal below one. -/
def partsBelow (digits n : Nat) : Parts where
  whole := ['0']
  fraction := zeros n ++ digitChars digits
  exponent := none
  whole_ne_nil := List.cons_ne_nil _ _
  isDigit_of_mem c mem := by
    obtain zero | digit := List.mem_append.mp (show c ∈ zeros (n + 1) ++ digitChars digits from mem)
    · exact isDigit_of_mem_zeros zero
    · exact isDigit_of_mem_digitChars digit

/-- The parts of a whole number. -/
def partsWhole (digits n : Nat) : Parts where
  whole := digitChars digits ++ zeros n
  fraction := []
  exponent := none
  whole_ne_nil := List.append_ne_nil_of_left_ne_nil Nat.toDigits_ne_nil _
  isDigit_of_mem c mem := by
    rw [List.append_nil] at mem
    obtain digit | zero := List.mem_append.mp mem
    · exact isDigit_of_mem_digitChars digit
    · exact isDigit_of_mem_zeros zero

/-- The parts of a decimal with a point behind some of the digits. -/
def partsInside (digits n : Nat) (exponent : Option Int) (pos : 0 < n) : Parts where
  whole := (digitChars digits).take n
  fraction := (digitChars digits).drop n
  exponent := exponent
  whole_ne_nil none := by
    obtain zero | empty := List.take_eq_nil_iff.mp none
    · omega
    · exact Nat.toDigits_ne_nil empty
  isDigit_of_mem c mem := by
    rw [List.take_append_drop] at mem
    exact isDigit_of_mem_digitChars mem

theorem decimal_partsBelow (digits n : Nat) :
    (partsBelow digits n).decimal = ⟨digits, -(n + (digitChars digits).length : Nat)⟩ := by
  have value : digitsValue (zeros (n + 1) ++ digitChars digits) = digits := by
    rw [digitsValue_zeros_append, digitsValue_digitChars]
  have length : (zeros n ++ digitChars digits).length = n + (digitChars digits).length := by
    rw [List.length_append, zeros, List.length_replicate]
  rw [Parts.decimal, Decimal.mk.injEq]
  exact ⟨value, by rw [← length]; exact Int.zero_sub _⟩

theorem decimal_partsWhole (digits n : Nat) :
    (partsWhole digits n).decimal = ⟨digits * 10 ^ n, 0⟩ := by
  have value : digitsValue (digitChars digits ++ zeros n ++ []) = digits * 10 ^ n := by
    rw [List.append_nil, digitsValue_append_zeros, digitsValue_digitChars]
  rw [Parts.decimal, Decimal.mk.injEq]
  exact ⟨value, rfl⟩

theorem decimal_partsInside (digits n : Nat) (exponent : Option Int) (pos : 0 < n) :
    (partsInside digits n exponent pos).decimal =
      ⟨digits, exponent.getD 0 - ((digitChars digits).length - n : Nat)⟩ := by
  simp only [Parts.decimal, partsInside, Decimal.mk.injEq]
  exact ⟨by rw [List.take_append_drop, digitsValue_digitChars], by rw [List.length_drop]⟩

theorem chars_partsBelow (digits n : Nat) :
    (partsBelow digits n).chars = '0' :: '.' :: zeros n ++ digitChars digits := by
  have nonempty : zeros n ++ digitChars digits ≠ [] :=
    List.append_ne_nil_of_right_ne_nil _ Nat.toDigits_ne_nil
  rw [Parts.chars, Parts.pointed, partsBelow, if_neg nonempty]
  simp [Parts.scale]

theorem chars_partsWhole (digits n : Nat) :
    (partsWhole digits n).chars = digitChars digits ++ zeros n := by
  simp [Parts.chars, Parts.pointed, Parts.scale, partsWhole]

theorem chars_partsInside (digits n : Nat) (exponent : Option Int) (pos : 0 < n) :
    (partsInside digits n exponent pos).chars = (digitChars digits).take n ++
      (if (digitChars digits).length ≤ n then [] else '.' :: (digitChars digits).drop n) ++
      (partsInside digits n exponent pos).scale := by
  simp only [Parts.chars, Parts.pointed, partsInside, List.drop_eq_nil_iff]

/-- The parts denote the decimal; of a whole number the zeros are digits. -/
def Denotes (p : Parts) (d : Decimal) : Prop :=
  ∃ k : Nat, p.decimal = ⟨d.digits * 10 ^ k, d.exponent - k⟩ ∧ (k = 0 ∨ d.exponent = k)

theorem denotes_of_eq {p : Parts} {d : Decimal} (same : p.decimal = d) : Denotes p d :=
  ⟨0, by simp [same], Or.inl rfl⟩

variable {d : Decimal}

/-- Where the point stands in a decimal, counted from before the first digit. -/
def point (d : Decimal) : Int := (digitChars d.digits).length + d.exponent

theorem ofDecimal_eq (style : NumeralStyle) (d : Decimal) : ofDecimal style d =
    if style.leastPoint ≤ point d ∧ point d ≤ style.greatestPoint then
      positional (digitChars d.digits) (point d)
    else scientific (digitChars d.digits) (point d) := rfl

theorem denotes_partsBelow (before : point d = -(n : Int)) : Denotes (partsBelow d.digits n) d := by
  refine denotes_of_eq ?_
  rw [point] at before
  rw [decimal_partsBelow]
  congr
  omega

theorem denotes_partsWhole (behind : point d = n) (whole : (digitChars d.digits).length ≤ n) :
    Denotes (partsWhole d.digits (n - (digitChars d.digits).length)) d := by
  rw [point] at behind
  refine ⟨n - (digitChars d.digits).length, ?_, Or.inr (by omega)⟩
  rw [decimal_partsWhole]
  congr
  omega

theorem denotes_partsInside {e : Option Int} (pos : 0 < n)
    (inside : n ≤ (digitChars d.digits).length) (shifted : point d = e.getD 0 + n) :
    Denotes (partsInside d.digits n e pos) d := by
  refine denotes_of_eq ?_
  rw [point] at shifted
  rw [decimal_partsInside]
  congr
  omega

/-- Where the point stands in positional form. -/
theorem point_cases (d : Decimal) :
    (∃ n : Nat, point d = -(n : Int)) ∨ ∃ n : Nat, point d = (n : Int) ∧ 0 < n := by
  obtain pos | le := Int.lt_or_le 0 (point d)
  · exact Or.inr ⟨(point d).toNat, by omega, by omega⟩
  · exact Or.inl ⟨(-point d).toNat, by omega⟩

theorem bare_positional (pre : List Char) (ends : d.digits % 10 ≠ 0) :
    ∃ p : Parts, bare (pre ++ positional (digitChars d.digits) (point d)) = pre ++ p.chars ∧
      Denotes p d := by
  obtain ⟨n, before⟩ | ⟨n, behind, pos⟩ := point_cases d
  · -- zeros before the digits
    refine ⟨partsBelow d.digits n, ?_, denotes_partsBelow before⟩
    rw [before, bare_below pre ends, chars_partsBelow]
  · rw [behind]
    by_cases whole : (digitChars d.digits).length ≤ n
    · -- zeros after the digits, and the mark that goes
      refine ⟨partsWhole d.digits (n - (digitChars d.digits).length), ?_,
        denotes_partsWhole behind whole⟩
      rw [bare_whole pre pos whole, chars_partsWhole]
    · -- the point among the digits
      refine ⟨partsInside d.digits n none pos, ?_,
        denotes_partsInside pos (by omega) (by rw [behind]; simp)⟩
      rw [bare_inside pre ends pos whole, chars_partsInside, if_neg whole]
      simp [Parts.scale, partsInside]

theorem bare_scientific (pre : List Char) (d : Decimal) :
    ∃ p : Parts, bare (pre ++ scientific (digitChars d.digits) (point d)) = pre ++ p.chars ∧
      Denotes p d := by
  have length : 0 < (digitChars d.digits).length := List.length_pos_iff.mpr (digitChars_ne_nil _)
  refine ⟨partsInside d.digits 1 (some (point d - 1)) Nat.one_pos, ?_,
    denotes_partsInside Nat.one_pos length (by simp)⟩
  rw [bare_exponent, chars_partsInside, scientific]
  rfl

/-- **A numeral without the mark of a whole number is a decimal that the reader takes apart**,
and its parts denote the decimal that was written. -/
theorem bare_ofDecimal (style : NumeralStyle) (pre : List Char) (ends : d.digits % 10 ≠ 0) :
    ∃ p : Parts, bare (pre ++ ofDecimal style d) = pre ++ p.chars ∧ Denotes p d := by
  rw [ofDecimal_eq]
  split
  · exact bare_positional pre ends
  · exact bare_scientific pre d

/-! ### Whole numbers -/

/-- Zeros behind the digits of a number multiply it by powers of ten. -/
theorem digitChars_mul_ten_pow (pos : 0 < n) (e : Nat) :
    digitChars (n * 10 ^ e) = digitChars n ++ zeros e := by
  induction e with
  | zero => rw [Nat.pow_zero, Nat.mul_one, zeros, List.replicate_zero, List.append_nil]
  | succ e ih =>
    have shifted : n * 10 ^ (e + 1) = 10 * (n * 10 ^ e) + 0 := by ring
    rw [shifted, digitChars, ← Nat.toDigits_append_toDigits (by decide)
      (Nat.mul_pos pos (Nat.pow_pos (by decide))) (by decide), ← digitChars, ih, zeros, zeros,
      List.replicate_succ', List.append_assoc]
    rfl

theorem length_digitChars_le (small : n < 2 ^ 53) : (digitChars n).length ≤ 16 :=
  (Nat.length_toDigits_le_iff (by decide) (by decide)).mpr (Nat.lt_trans small (by decide))

/-- A whole number below `2 ^ 53` is written with all its digits. -/
theorem bare_ofDecimal_whole {d : Decimal} {e : Nat} (pre : List Char) (exponent : d.exponent = e)
    (value : d.digits * 10 ^ e = n) (pos : 0 < n) (small : n < 2 ^ 53) :
    bare (pre ++ ofDecimal .plain d) = pre ++ digitChars n := by
  have digits : digitChars n = digitChars d.digits ++ zeros e := by
    rw [← value]
    exact digitChars_mul_ten_pow (Nat.pos_of_mul_pos_right (value ▸ pos)) e
  have length : (digitChars n).length = (digitChars d.digits).length + e := by
    rw [digits, List.length_append, zeros, List.length_replicate]
  have first : 0 < (digitChars n).length := List.length_pos_iff.mpr (digitChars_ne_nil n)
  have last := length_digitChars_le small
  have behind : point d = (digitChars n).length := by
    rw [point]
    omega
  have inside : NumeralStyle.plain.leastPoint ≤ point d ∧
      point d ≤ NumeralStyle.plain.greatestPoint := by
    simp only [NumeralStyle.plain]
    omega
  rw [ofDecimal_eq, if_pos inside, behind, positional_of_pos first, if_pos (by omega), length,
    Nat.add_sub_cancel_left, ← digits, ← List.append_assoc, bare_wholeMark]

end Numeral

namespace Shortest

/-- Zeros that are written out do not change what is read. -/
theorem FirstHit.ofDecimal_eq {m : Magnitude} {n k : Nat} {d : Decimal} (hit : FirstHit m n k d)
    (nonzero : m.mantissa ≠ 0) (negative : Bool) {p : Literal.Parts}
    (denotes : Numeral.Denotes p d) :
    Double.ofDecimal negative p.decimal.digits p.decimal.exponent = .finite negative m := by
  obtain ⟨j, same, fits⟩ := denotes
  have le : j ≤ k := by
    have exponent := hit.exponent
    omega
  have exponent : d.exponent - j = ((k - j : Nat) : Int) - finest := by
    rw [hit.exponent]
    omega
  have power : 10 ^ k = 10 ^ j * 10 ^ (k - j) := by rw [← Nat.pow_add, Nat.add_sub_cancel' le]
  have rounds : roundsTo m (d.digits * 10 ^ j * (4 * 10 ^ (k - j))) = true := by
    have count : d.digits * 10 ^ j * (4 * 10 ^ (k - j)) = d.digits * (4 * 10 ^ k) := by
      rw [power]
      ring
    rw [count, hit.rounds]
  rw [same, exponent]
  exact Double.ofDecimal_of_roundsTo negative nonzero rounds

end Shortest

namespace Double

theorem toChars_of_mantissa {m : Magnitude} (negative : Bool) (nonzero : m.mantissa ≠ 0) :
    (finite negative m).toChars =
      Numeral.bare (Numeral.sign negative ++ Numeral.ofDecimal .plain (shortest .even m)) := by
  rw [toChars, if_neg nonzero, Numeral.ofDouble, Numeral.ofMagnitude, if_neg nonzero]
  rfl

/-- **A number that is written and read is the same number**, except that the negative zero
becomes the positive one. -/
theorem toDouble_toText (x : Double) :
    x.toText.toDouble = if x = .finite true Magnitude.zero then .zero else x := by
  cases x with
  | nan => rfl
  | infinite negative => cases negative <;> rfl
  | finite negative m =>
    by_cases zero : m.mantissa = 0
    · rw [m.eq_zero_of_mantissa zero]
      cases negative <;> rfl
    · have other : finite negative m ≠ .finite true Magnitude.zero := by
        rintro ⟨⟩
        exact zero rfl
      obtain ⟨k, hit⟩ := shortest_spec .even zero
      obtain ⟨p, chars, denotes⟩ := Numeral.bare_ofDecimal .plain (Numeral.sign negative)
        (shortest_digits_mod_ten .even zero)
      rw [if_neg other, toText, toChars_of_mantissa negative zero, chars, Literal.toDouble_chars,
        (hit 0).ofDecimal_eq zero negative denotes]

/-- **The text of a whole number below `2 ^ 53` is its numeral.** -/
theorem toText_ofNat {n : Nat} (small : n < 2 ^ 53) : (ofNat n).toText = Text.ofNat n := by
  obtain ⟨m, written, whole⟩ := ofNat_eq small
  rw [written, toText, Text.ofNat]
  congr 1
  obtain zero | pos := Nat.eq_zero_or_pos n
  · have none : m.mantissa = 0 := by
      rw [zero, Nat.zero_mul] at whole
      exact (Nat.mul_eq_zero.mp whole).resolve_right (Nat.two_pow_pos m.scale).ne'
    rw [toChars, if_pos none, zero, Nat.toDigits_zero]
  · have nonzero := mantissa_ne_zero_of_whole whole pos
    obtain ⟨e, exponent, value⟩ := shortest_of_whole .even whole pos small
    rw [toChars_of_mantissa false nonzero,
      Numeral.bare_ofDecimal_whole _ exponent value pos small]
    rfl

end Double

end HostObjects
