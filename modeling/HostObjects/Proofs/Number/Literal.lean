import HostObjects.Number.Literal
import HostObjects.Number.Numeral
import HostObjects.Proofs.Number.Shortest
import HostObjects.Proofs.Text.Characters
import Mathlib.Data.List.TakeDrop

/-!
# Reading decimals

The reader of literals cuts a decimal into digits before the point, digits after it and an
exponent.  `Literal.Parts` is what it finds, with the conditions under which it finds it,
and `Parts.chars` puts the parts together again.  A decimal that is put together with a
sign is read as the number that its parts denote (`decimal?_chars`).

A literal is more than a decimal: there are radix marks, names of infinities, blanks and
letters to refuse.  None of these is made of the characters of a decimal, so a text of
these characters reaches the reader of decimals as it is (`toDouble_chars`).
-/

namespace HostObjects

open Shortest

namespace Literal

variable {c : Char} {cs ds rest : List Char}

/-! ### Digits -/

theorem isDigit_eq (c : Char) : isDigit c = c.isDigit := by
  simp only [isDigit, Char.isDigit, Char.le_def]

theorem digitsValue_eq (cs : List Char) : digitsValue cs = Nat.ofDigitChars 10 cs 0 := by
  rw [digitsValue, Nat.ofDigitChars_eq_foldl]
  simp only [Nat.mul_comm]
  rfl

theorem span_isDigit (digits : ∀ c ∈ ds, isDigit c = true)
    (stop : ∀ c, rest.head? = some c → isDigit c = false) :
    (ds ++ rest).span isDigit = (ds, rest) := by
  have stops : rest.takeWhile isDigit = [] ∧ rest.dropWhile isDigit = rest := by
    cases rest with
    | nil => exact ⟨rfl, rfl⟩
    | cons c rest => simp [stop c rfl]
  rw [List.span_eq_takeWhile_dropWhile, List.takeWhile_append_of_pos digits,
    List.dropWhile_append_of_pos digits, stops.1, stops.2, List.append_nil]

theorem digitChars_ne_nil (n : Nat) : Numeral.digitChars n ≠ [] := Nat.toDigits_ne_nil

theorem isDigit_of_mem_digitChars {n : Nat} (mem : c ∈ Numeral.digitChars n) :
    isDigit c = true := by
  rw [isDigit_eq]
  exact Nat.isDigit_of_mem_toDigits (by decide) (by decide) mem

theorem isDigit_of_mem_zeros {n : Nat} (mem : c ∈ Numeral.zeros n) : isDigit c = true := by
  rw [List.eq_of_mem_replicate mem]
  rfl

theorem digitsValue_digitChars (n : Nat) : digitsValue (Numeral.digitChars n) = n := by
  rw [digitsValue_eq]
  exact Nat.ofDigitChars_ten_toDigits

theorem digitsValue_zeros_append (n : Nat) (cs : List Char) :
    digitsValue (Numeral.zeros n ++ cs) = digitsValue cs := by
  rw [digitsValue_eq, digitsValue_eq, Numeral.zeros, Nat.ofDigitChars_append,
    Nat.ofDigitChars_replicate_zero, Nat.mul_zero]

theorem digitsValue_append_zeros (cs : List Char) (n : Nat) :
    digitsValue (cs ++ Numeral.zeros n) = digitsValue cs * 10 ^ n := by
  rw [digitsValue_eq, digitsValue_eq, Numeral.zeros, Nat.ofDigitChars_append,
    Nat.ofDigitChars_replicate_zero, Nat.mul_comm]

/-! ### Signs and exponents -/

theorem ne_sign_of_isDigit (digit : isDigit c = true) : c ≠ '-' ∧ c ≠ '+' := by
  constructor <;> rintro rfl <;> cases digit

theorem splitSign_unsigned (first : ∀ c, cs.head? = some c → isDigit c = true) :
    splitSign cs = (false, cs) := by
  unfold splitSign
  split
  · exact absurd rfl (ne_sign_of_isDigit (first _ rfl)).1
  · exact absurd rfl (ne_sign_of_isDigit (first _ rfl)).2
  · rfl

theorem splitSign_sign (negative : Bool) (first : ∀ c, cs.head? = some c → isDigit c = true) :
    splitSign (Numeral.sign negative ++ cs) = (negative, cs) := by
  cases negative with
  | false => exact splitSign_unsigned first
  | true => rfl

theorem eq_minus_of_mem_sign {negative : Bool} (mem : c ∈ Numeral.sign negative) : c = '-' := by
  cases negative with
  | false => cases mem
  | true => exact List.mem_singleton.mp mem

theorem integer_eq (e : Int) :
    Numeral.integer e = Numeral.sign (e < 0) ++ Numeral.digitChars e.natAbs := by
  cases e with
  | ofNat n => rfl
  | negSucc n =>
    rw [decide_eq_true (Int.negSucc_lt_zero n)]
    rfl

theorem exponent?_integer (e : Int) : exponent? ('e' :: Numeral.integer e) = some e := by
  have split : splitSign (Numeral.integer e) = (decide (e < 0), Numeral.digitChars e.natAbs) := by
    rw [integer_eq]
    exact splitSign_sign _ fun c first => isDigit_of_mem_digitChars (List.mem_of_head? first)
  have digits : Numeral.digitChars e.natAbs ≠ [] ∧
      (Numeral.digitChars e.natAbs).all isDigit = true :=
    ⟨digitChars_ne_nil _, List.all_eq_true.mpr fun c => isDigit_of_mem_digitChars⟩
  have value : (if e < 0 then -(e.natAbs : Int) else e.natAbs) = e := by
    split <;> omega
  rw [exponent?, if_pos (Or.inl rfl), split]
  simp only [digits, digitsValue_digitChars, ne_eq, not_false_eq_true, and_self, if_true,
    decide_eq_true_eq, value]

/-! ### Unsigned decimals -/

/-- The parts of a decimal without a sign. -/
structure Parts where
  whole : List Char
  fraction : List Char
  exponent : Option Int
  /-- There are digits before the point. -/
  whole_ne_nil : whole ≠ []
  isDigit_of_mem : ∀ c ∈ whole ++ fraction, isDigit c = true

namespace Parts

/-- The digits after the point; without them there is no point. -/
def pointed (p : Parts) : List Char := if p.fraction = [] then [] else '.' :: p.fraction

/-- The exponent with its mark. -/
def scale (p : Parts) : List Char :=
  match p.exponent with
  | none => []
  | some e => 'e' :: Numeral.integer e

/-- The characters of the decimal. -/
def chars (p : Parts) : List Char := p.whole ++ p.pointed ++ p.scale

/-- The number that the parts denote. -/
def decimal (p : Parts) : Decimal where
  digits := digitsValue (p.whole ++ p.fraction)
  exponent := p.exponent.getD 0 - p.fraction.length

end Parts

theorem exponent?_scale (p : Parts) : exponent? p.scale = some (p.exponent.getD 0) := by
  unfold Parts.scale
  split
  · next absent =>
    rw [absent]
    rfl
  · next e given =>
    rw [given, exponent?_integer]
    rfl

theorem head?_scale (p : Parts) (first : p.scale.head? = some c) : c = 'e' := by
  unfold Parts.scale at first
  split at first <;> cases first
  rfl

theorem head?_pointed_scale (p : Parts) (first : (p.pointed ++ p.scale).head? = some c) :
    c = '.' ∨ c = 'e' := by
  unfold Parts.pointed at first
  split at first
  · exact Or.inr (head?_scale p first)
  · cases first
    exact Or.inl rfl

theorem splitFraction_pointed (p : Parts) :
    splitFraction (p.pointed ++ p.scale) = (p.fraction, p.scale) := by
  unfold Parts.pointed
  split
  · next absent =>
    rw [absent, List.nil_append]
    unfold splitFraction
    split
    · next cs point =>
      have first := head?_scale p (c := '.') (by rw [point]; rfl)
      cases first
    · rfl
  · refine span_isDigit (fun c mem => p.isDigit_of_mem c (List.mem_append_right _ mem)) ?_
    intro c first
    rw [head?_scale p first]
    rfl

theorem head?_chars (p : Parts) (first : p.chars.head? = some c) : isDigit c = true := by
  obtain ⟨d, ds, whole⟩ := List.exists_cons_of_ne_nil p.whole_ne_nil
  rw [Parts.chars, whole] at first
  cases first
  exact p.isDigit_of_mem c (by simp [whole])

/-- **A decimal is read as the number its parts denote.** -/
theorem decimal?_chars (negative : Bool) (p : Parts) :
    decimal? (Numeral.sign negative ++ p.chars) =
      some (Double.ofDecimal negative p.decimal.digits p.decimal.exponent) := by
  have whole : p.chars.span isDigit = (p.whole, p.pointed ++ p.scale) := by
    rw [Parts.chars, List.append_assoc]
    refine span_isDigit (fun c mem => p.isDigit_of_mem c (List.mem_append_left _ mem)) ?_
    intro c first
    obtain rfl | rfl := head?_pointed_scale p first <;> rfl
  simp only [decimal?, splitSign_sign negative fun c => head?_chars p, whole,
    splitFraction_pointed, exponent?_scale, p.whole_ne_nil, false_and, if_false, Option.map_some]
  rfl

/-! ### Literals that are decimals -/

/-- The characters of decimals. -/
def decimalChars : List Char := "0123456789+-.eE".toList

theorem mem_decimalChars_of_isDigit (digit : isDigit c = true) : c ∈ decimalChars := by
  have tens : ∀ d < 10, Char.ofNat (48 + d) ∈ decimalChars := by decide
  have range : 48 ≤ c.toNat ∧ c.toNat ≤ 57 := by
    simpa [isDigit, Char.le_def, UInt32.le_iff_toNat_le] using digit
  have mem := tens (c.toNat - 48) (by omega)
  rwa [Nat.add_sub_cancel' range.1, Char.ofNat_toNat] at mem

theorem mem_decimalChars_of_mem_integer {e : Int} (mem : c ∈ Numeral.integer e) :
    c ∈ decimalChars := by
  rw [integer_eq] at mem
  obtain sign | digit := List.mem_append.mp mem
  · rw [eq_minus_of_mem_sign sign]
    decide
  · exact mem_decimalChars_of_isDigit (isDigit_of_mem_digitChars digit)

theorem mem_decimalChars (negative : Bool) (p : Parts)
    (mem : c ∈ Numeral.sign negative ++ p.chars) : c ∈ decimalChars := by
  have digit : c ∈ p.whole ++ p.fraction → c ∈ decimalChars := fun mem =>
    mem_decimalChars_of_isDigit (p.isDigit_of_mem c mem)
  rw [Parts.chars, List.mem_append, List.mem_append, List.mem_append] at mem
  obtain sign | (whole | pointed) | scale := mem
  · rw [eq_minus_of_mem_sign sign]
    decide
  · exact digit (List.mem_append_left _ whole)
  · unfold Parts.pointed at pointed
    split at pointed
    · cases pointed
    · obtain rfl | mem := List.mem_cons.mp pointed
      · decide
      · exact digit (List.mem_append_right _ mem)
  · unfold Parts.scale at scale
    split at scale
    · cases scale
    · obtain rfl | mem := List.mem_cons.mp scale
      · decide
      · exact mem_decimalChars_of_mem_integer mem

theorem marked?_of_forall_mem (plain : ∀ c ∈ cs, c ∈ decimalChars) : marked? cs = none := by
  have unmarked : decimalChars.all (fun c => (radix? c).isNone) = true := by decide
  unfold marked?
  split
  · next mark rest =>
    have none := List.all_eq_true.mp unmarked mark (plain mark (by simp))
    rw [Option.isNone_iff_eq_none.mp none, Option.map_none]
  · rfl

theorem infinity?_of_forall_mem (plain : ∀ c ∈ cs, c ∈ decimalChars) : infinity? cs = none := by
  have rest : ∀ c ∈ (splitSign cs).2, c ∈ decimalChars := by
    unfold splitSign
    split <;> simp_all
  unfold infinity?
  refine if_neg fun name => ?_
  have name : (splitSign cs).2 = "Infinity".toList := name
  have capital : 'I' ∈ decimalChars := rest 'I' (by rw [name]; decide)
  revert capital
  decide

theorem unmarked_of_decimal? {x : Double} (plain : ∀ c ∈ cs, c ∈ decimalChars)
    (read : decimal? cs = some x) : unmarked cs = x := by
  have letters : decimalChars.any isForeign = false := by decide
  have permitted : cs.any isForeign = false :=
    List.any_eq_false.mpr fun c mem => List.any_eq_false.mp letters c (plain c mem)
  rw [unmarked, infinity?_of_forall_mem plain]
  simp [permitted, read?, read]

/-- A text of the characters of decimals that is a decimal is a literal of its number. -/
theorem number_of_decimal? {x : Double} (plain : ∀ c ∈ cs, c ∈ decimalChars)
    (read : decimal? cs = some x) : number cs = x := by
  have nonempty : cs ≠ [] := by
    rintro rfl
    cases read
  rw [number, if_neg nonempty, marked?_of_forall_mem plain, Option.getD_none,
    unmarked_of_decimal? plain read]

theorem dropWhile_of_forall_mem (plain : ∀ c ∈ cs, c ∈ decimalChars) :
    cs.dropWhile isBlank = cs := by
  have visible : decimalChars.any isBlank = false := by decide
  cases cs with
  | nil => rfl
  | cons c cs =>
    exact List.dropWhile_cons_of_neg (List.any_eq_false.mp visible c (plain c (by simp)))

theorem trimBlanks_of_forall_mem (plain : ∀ c ∈ cs, c ∈ decimalChars) : trimBlanks cs = cs := by
  rw [trimBlanks, dropWhile_of_forall_mem plain, dropWhile_of_forall_mem (by simpa using plain),
    List.reverse_reverse]

/-- **The text of a decimal is converted to the number its parts denote.** -/
theorem toDouble_chars (negative : Bool) (p : Parts) :
    (Text.ofChars (Numeral.sign negative ++ p.chars)).toDouble =
      Double.ofDecimal negative p.decimal.digits p.decimal.exponent := by
  have plain : ∀ c ∈ Numeral.sign negative ++ p.chars, c ∈ decimalChars :=
    fun c => mem_decimalChars negative p
  rw [Text.toDouble, Text.chars_ofChars, trimBlanks_of_forall_mem plain,
    number_of_decimal? plain (decimal?_chars negative p)]

end Literal

end HostObjects
