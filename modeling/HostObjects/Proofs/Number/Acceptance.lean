import HostObjects.Proofs.Number.Grammar
import Mathlib.Data.List.TakeWhile

/-!
# The numeric texts

A numeric text is a numeral of the grammar, or nothing, with blanks around it.  The grammar of
the scripting language and the conversion of texts to numbers differ in what they take for a
blank (`standardBlanks`, `blankChars`): the byte order mark is one for the language only, and
the next-line character for the conversion only.

The conversion gives a number for the texts that are numeric with its own blanks, and for no
others (`toDouble_ne_nan_iff`).  No numeral has a blank of either kind, so the two disagree
about a text exactly if it has the one character or the other where the blanks are
(`isNumericText_iff_iff`).
-/

namespace HostObjects

open Literal

/-! ### Blanks at both ends -/

section Blanks

variable {before body after cs : List Char}

theorem trimBlanks_sound (cs : List Char) : ∃ before after,
    (∀ c ∈ before ++ after, isBlank c = true) ∧ cs = before ++ trimBlanks cs ++ after := by
  refine ⟨cs.takeWhile isBlank, ((cs.dropWhile isBlank).reverse.takeWhile isBlank).reverse,
    fun c mem => ?_, ?_⟩
  · have all : ∀ ds : List Char, c ∈ ds.takeWhile isBlank → isBlank c = true := fun ds =>
      List.all_eq_true.mp List.all_takeWhile c
    obtain first | last := List.mem_append.mp mem
    · exact all _ first
    · exact all _ (List.mem_reverse.mp last)
  · rw [trimBlanks, List.append_assoc, ← List.reverse_append, List.takeWhile_append_dropWhile,
      List.reverse_reverse, List.takeWhile_append_dropWhile]

theorem dropWhile_append (blank : ∀ c ∈ before, isBlank c = true)
    (visible : ∀ c ∈ body, isBlank c = false) (nonempty : body ≠ []) :
    (before ++ body ++ after).dropWhile isBlank = body ++ after := by
  obtain ⟨c, rest, rfl⟩ := List.exists_cons_of_ne_nil nonempty
  rw [List.append_assoc, List.dropWhile_append_of_pos blank, List.cons_append,
    List.dropWhile_cons_of_neg (by rw [visible c List.mem_cons_self]; exact Bool.false_ne_true)]

/-- Blanks around what has no blanks go. -/
theorem trimBlanks_complete (blank : ∀ c ∈ before ++ after, isBlank c = true)
    (visible : ∀ c ∈ body, isBlank c = false) : trimBlanks (before ++ body ++ after) = body := by
  by_cases empty : body = []
  · rw [empty, List.append_nil, trimBlanks, List.dropWhile_eq_nil_iff.mpr blank]
    rfl
  · have back : (body ++ after).reverse = after.reverse ++ body.reverse ++ [] := by simp
    have last : (after.reverse ++ body.reverse ++ []).dropWhile isBlank = body.reverse ++ [] :=
      dropWhile_append (fun c mem => blank c (List.mem_append_right _ (List.mem_reverse.mp mem)))
        (fun c mem => visible c (List.mem_reverse.mp mem)) (mt List.reverse_eq_nil_iff.mp empty)
    rw [trimBlanks, dropWhile_append (fun c mem => blank c (List.mem_append_left _ mem)) visible
      empty, back, last, List.append_nil, List.reverse_reverse]

end Blanks

namespace Literal

/-! ### The characters of numerals -/

/-- The characters of numerals. -/
def numeralChars : List Char := decimalChars ++ "Infinity".toList ++ hexDigits ++ "xXoO".toList

theorem areOf_of_isNumeral {cs : List Char} (numeral : IsNumeral cs) : AreOf numeralChars cs := by
  have decimal : ∀ {ds : List Char}, AreOf decimalChars ds → AreOf numeralChars ds :=
    fun plain c mem => by
      simp only [numeralChars, List.mem_append]
      exact Or.inl (Or.inl (Or.inl (plain c mem)))
  cases numeral with
  | finite isSign finite =>
    exact decimal (areOf_append (areOf_of_isSign isSign) (areOf_of_isFinite finite))
  | infinity isSign =>
    exact areOf_append (decimal (areOf_of_isSign isSign)) (by decide)
  | marked marks _ digits =>
    have known : radixMarks.all (fun entry =>
        entry.1 ∈ numeralChars ∧ AreOf numeralChars entry.2) = true := by decide
    obtain ⟨mark, alphabet⟩ := of_decide_eq_true (List.all_eq_true.mp known _ marks)
    exact areOf_cons (by decide) (areOf_cons mark fun c mem => alphabet c (digits c mem))

/-! ### Numeric texts -/

/-- The white space and the line terminators of the scripting language. -/
def standardBlanks : List Nat :=
  [0x09, 0x0A, 0x0B, 0x0C, 0x0D, 0x20, 0xA0, 0x1680, 0x2000, 0x2001, 0x2002, 0x2003, 0x2004,
   0x2005, 0x2006, 0x2007, 0x2008, 0x2009, 0x200A, 0x2028, 0x2029, 0x202F, 0x205F, 0x3000, 0xFEFF]

/-- The text is a numeral or nothing, with blanks of the list around it. -/
def IsNumericText (blanks : List Nat) (t : Text) : Prop :=
  ∃ before body after, t = Text.ofChars (before ++ body ++ after) ∧
    (∀ c ∈ before ++ after, c.toNat ∈ blanks) ∧ (body = [] ∨ IsNumeral body)

variable {blanks blanks' : List Nat} {t : Text}

theorem areOf_of_body {body : List Char} (numeral : body = [] ∨ IsNumeral body) :
    AreOf numeralChars body := by
  obtain rfl | numeral := numeral
  · exact fun c mem => absurd mem List.not_mem_nil
  · exact areOf_of_isNumeral numeral

theorem isBlank_iff {c : Char} : isBlank c = true ↔ c.toNat ∈ blankChars := List.contains_iff_mem

theorem isBlank_of_mem {c : Char} (mem : c ∈ numeralChars) : isBlank c = false := by
  have visible : numeralChars.all (fun c => !isBlank c) = true := by decide
  simpa using List.all_eq_true.mp visible c mem

/-- **The conversion gives a number exactly for the numeric texts with its own blanks.** -/
theorem toDouble_ne_nan_iff (t : Text) : t.toDouble ≠ .nan ↔ IsNumericText blankChars t := by
  rw [Text.toDouble, number_ne_nan_iff]
  constructor
  · intro numeral
    obtain ⟨before, after, blank, split⟩ := trimBlanks_sound t.chars
    refine ⟨before, trimBlanks t.chars, after, ?_, fun c mem => isBlank_iff.mp (blank c mem),
      numeral⟩
    have spared : Text.replacement ∉ before ++ trimBlanks t.chars ++ after := by
      have visible : isBlank Text.replacement = false ∧ Text.replacement ∉ numeralChars := by
        decide
      have outside : Text.replacement ∉ before ++ after := fun mem => by
        rw [blank _ mem] at visible
        cases visible.1
      have inside : Text.replacement ∉ trimBlanks t.chars :=
        fun mem => visible.2 (areOf_of_body numeral _ mem)
      simp only [List.mem_append, not_or] at outside ⊢
      exact ⟨⟨outside.1, inside⟩, outside.2⟩
    rw [← split] at spared ⊢
    exact (Text.ofChars_chars_of_not_mem spared).symm
  · rintro ⟨before, body, after, rfl, blank, numeral⟩
    rw [Text.chars_ofChars, trimBlanks_complete (fun c mem => isBlank_iff.mpr (blank c mem))
      fun c mem => isBlank_of_mem (areOf_of_body numeral c mem)]
    exact numeral

/-! ### One kind of blanks and another -/

theorem ofNat_mem_units {c : Char} {cs : List Char} (low : c.toNat < 0x10000) (mem : c ∈ cs) :
    UInt16.ofNat c.toNat ∈ (Text.ofChars cs).units := by
  refine List.mem_flatMap.mpr ⟨c, mem, ?_⟩
  rw [Text.charUnits_of_lt low]
  exact List.mem_cons_self

theorem exists_of_mem_units {n : Nat} {cs : List Char} (low : ∀ c ∈ cs, c.toNat < 0x10000)
    (small : n < 0x10000) (mem : UInt16.ofNat n ∈ (Text.ofChars cs).units) :
    ∃ c ∈ cs, c.toNat = n := by
  obtain ⟨c, inside, unit⟩ := List.mem_flatMap.mp mem
  rw [Text.charUnits_of_lt (low c inside), List.mem_singleton, ← UInt16.toNat_inj,
    UInt16.toNat_ofNat_of_lt' small, UInt16.toNat_ofNat_of_lt' (low c inside)] at unit
  exact ⟨c, inside, unit.symm⟩

/-- The units of a numeric text are blanks and units of numerals. -/
theorem not_mem_units {n : Nat} (low : ∀ n ∈ blanks, n < 0x10000) (small : n < 0x10000)
    (noBlank : n ∉ blanks) (noDigit : numeralChars.all (fun c => c.toNat ≠ n) = true)
    (numeric : IsNumericText blanks t) : UInt16.ofNat n ∉ t.units := by
  obtain ⟨before, body, after, rfl, blank, numeral⟩ := numeric
  have ascii : numeralChars.all (fun c => c.toNat < 0x10000) = true := by decide
  have cases : ∀ c ∈ before ++ body ++ after, c.toNat ∈ blanks ∨ c ∈ numeralChars := by
    intro c mem
    simp only [List.mem_append] at mem blank
    obtain (first | digit) | last := mem
    · exact Or.inl (blank c (Or.inl first))
    · exact Or.inr (areOf_of_body numeral c digit)
    · exact Or.inl (blank c (Or.inr last))
  intro mem
  obtain ⟨c, inside, rfl⟩ := exists_of_mem_units
    (fun c mem => (cases c mem).elim (low _) fun digit =>
      of_decide_eq_true (List.all_eq_true.mp ascii c digit)) small mem
  exact (cases c inside).elim noBlank fun digit =>
    of_decide_eq_true (List.all_eq_true.mp noDigit c digit) rfl

/-- A text without the blanks of the one kind only is numeric with the other kind. -/
theorem isNumericText_mono (low : ∀ n ∈ blanks, n < 0x10000)
    (other : ∀ n ∈ blanks, n ∈ blanks' ∨ UInt16.ofNat n ∉ t.units)
    (numeric : IsNumericText blanks t) : IsNumericText blanks' t := by
  obtain ⟨before, body, after, rfl, blank, numeral⟩ := numeric
  refine ⟨before, body, after, rfl, fun c mem => ?_, numeral⟩
  have inside : c ∈ before ++ body ++ after := by
    simp only [List.mem_append] at mem ⊢
    exact mem.elim (fun first => Or.inl (Or.inl first)) Or.inr
  exact (other _ (blank c mem)).resolve_right
    (not_not.mpr (ofNat_mem_units (low _ (blank c mem)) inside))

/-- The next-line character is a blank of the conversion only. -/
def nextLine : Nat := 0x85

/-- The byte order mark is a blank of the language only. -/
def byteOrderMark : Nat := 0xFEFF

theorem isNumericText_standard (spared : UInt16.ofNat nextLine ∉ t.units)
    (numeric : IsNumericText blankChars t) : IsNumericText standardBlanks t := by
  refine isNumericText_mono (by decide) (fun n mem => ?_) numeric
  have known : ∀ n ∈ blankChars, n ∈ standardBlanks ∨ n = nextLine := by decide
  exact (known n mem).imp_right fun (same : n = _) => same ▸ spared

theorem isNumericText_own (spared : UInt16.ofNat byteOrderMark ∉ t.units)
    (numeric : IsNumericText standardBlanks t) : IsNumericText blankChars t := by
  refine isNumericText_mono (by decide) (fun n mem => ?_) numeric
  have known : ∀ n ∈ standardBlanks, n ∈ blankChars ∨ n = byteOrderMark := by decide
  exact (known n mem).imp_right fun (same : n = _) => same ▸ spared

/-- **The two kinds of blanks disagree about a text exactly if it is numeric with the one kind and
has the character that is of that kind only.** -/
theorem isNumericText_iff_iff :
    (IsNumericText blankChars t ↔ IsNumericText standardBlanks t) ↔
      (UInt16.ofNat nextLine ∈ t.units → ¬IsNumericText blankChars t) ∧
        (UInt16.ofNat byteOrderMark ∈ t.units → ¬IsNumericText standardBlanks t) := by
  have line : IsNumericText standardBlanks t → UInt16.ofNat nextLine ∉ t.units :=
    not_mem_units (by decide) (by decide) (by decide) (by decide)
  have mark : IsNumericText blankChars t → UInt16.ofNat byteOrderMark ∉ t.units :=
    not_mem_units (by decide) (by decide) (by decide) (by decide)
  constructor
  · intro same
    exact ⟨fun mem own => line (same.mp own) mem, fun mem standard => mark (same.mpr standard) mem⟩
  · rintro ⟨noLine, noMark⟩
    exact ⟨fun own => isNumericText_standard (fun mem => noLine mem own) own,
      fun standard => isNumericText_own (fun mem => noMark mem standard) standard⟩

/-! ### The conversion -/

theorem toDouble_of_blank (blank : ∀ c ∈ t.chars, isBlank c = true) : t.toDouble = .zero := by
  have empty : trimBlanks (t.chars ++ [] ++ []) = [] :=
    trimBlanks_complete (by simpa using blank) (fun c mem => absurd mem List.not_mem_nil)
  rw [List.append_nil, List.append_nil] at empty
  rw [Text.toDouble, empty]
  rfl

/-- **Which texts are converted to numbers.**  They are the numeric texts of the language, without
those that have a byte order mark among the blanks, and together with those that have a next-line
character there.  A text of blanks alone is zero. -/
theorem toDouble_accepts (t : Text) :
    (t.toDouble ≠ .nan ↔ IsNumericText blankChars t) ∧
    ((t.toDouble ≠ .nan ↔ IsNumericText standardBlanks t) ↔
      (UInt16.ofNat nextLine ∈ t.units → ¬IsNumericText blankChars t) ∧
        (UInt16.ofNat byteOrderMark ∈ t.units → ¬IsNumericText standardBlanks t)) ∧
    ((∀ c ∈ t.chars, isBlank c = true) → t.toDouble = .zero) := by
  rw [toDouble_ne_nan_iff]
  exact ⟨Iff.rfl, isNumericText_iff_iff, toDouble_of_blank⟩

/-- A text that begins with a byte order mark is no number, and one that begins with a next-line
character is. -/
theorem toDouble_rejects_byteOrderMark :
    IsNumericText standardBlanks ⟨[0xFEFF, 0x31]⟩ ∧ (Text.mk [0xFEFF, 0x31]).toDouble = .nan ∧
      ¬IsNumericText standardBlanks ⟨[0x85, 0x31]⟩ ∧
      (Text.mk [0x85, 0x31]).toDouble = .ofNat 1 := by
  have blank : ∀ c ∈ ['\ufeff'] ++ [], c.toNat ∈ standardBlanks := fun c mem => by
    rw [List.mem_singleton.mp mem]
    decide
  refine ⟨⟨['\ufeff'], ['1'], [], by decide, blank, Or.inr ?_⟩, by decide +kernel, ?_,
    by decide +kernel⟩
  · have digits : IsFinite (['1'] ++ []) := .whole (by decide) (by decide) .absent
    exact @IsNumeral.finite [] _ (Or.inl rfl) digits
  · intro standard
    have line : UInt16.ofNat nextLine ∉ [0x85, 0x31] :=
      not_mem_units (by decide) (by decide) (by decide) (by decide) standard
    revert line
    decide

end Literal

end HostObjects
