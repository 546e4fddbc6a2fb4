import HostObjects.Proofs.Number.Literal
import HostObjects.Proofs.Number.Radix

/-!
# The grammar of number literals

The scripting language gives numeric strings a grammar of their own: digits with an optional
point and exponent and an optional sign, `Infinity` with an optional sign, and digits after a
radix mark.  `IsNumeral` states it, with alphabets in place of the readers' arithmetic.

The readers accept that grammar and nothing else (`number_ne_nan_iff`).  Each of them is
taken through it in both directions.  What the reader of decimals takes apart is a numeral of
its parts (`isFinite_of_decimal?`), and a numeral's parts are found again because none of
them can begin with what may stand before it (`decimal?_of_isFinite`).  The names of the
infinities and of not-a-number that this reader also knows have letters that are refused
before it is asked.
-/

namespace HostObjects.Literal

variable {c : Char} {cs ds sign whole fraction tail rest : List Char}

/-! ### The grammar -/

def decimalDigits : List Char := "0123456789".toList

def hexDigits : List Char := "0123456789abcdefABCDEF".toList

def octalDigits : List Char := "01234567".toList

def binaryDigits : List Char := "01".toList

/-- The letters that mark a radix, each with the digits of its radix. -/
def radixMarks : List (Char × List Char) :=
  [('x', hexDigits), ('X', hexDigits), ('o', octalDigits), ('O', octalDigits),
   ('b', binaryDigits), ('B', binaryDigits)]

/-- All characters are of the alphabet. -/
def AreOf (alphabet cs : List Char) : Prop := ∀ c ∈ cs, c ∈ alphabet

instance (alphabet cs : List Char) : Decidable (AreOf alphabet cs) := List.decidableBAll _ cs

/-- A sign or nothing. -/
def IsSign (cs : List Char) : Prop := cs = [] ∨ cs = ['+'] ∨ cs = ['-']

/-- An exponent or nothing: a mark, a sign or nothing, and at least one digit. -/
inductive IsExponent : List Char → Prop
  | absent : IsExponent []
  | present {mark : Char} {sign ds : List Char} (marks : mark = 'e' ∨ mark = 'E')
      (isSign : IsSign sign) (nonempty : ds ≠ []) (digits : AreOf decimalDigits ds) :
      IsExponent (mark :: (sign ++ ds))

/-- A decimal without a sign: digits, or digits with a point before, among or after them, and an
exponent or nothing. -/
inductive IsFinite : List Char → Prop
  | whole {whole tail : List Char} (nonempty : whole ≠ []) (digits : AreOf decimalDigits whole)
      (exponent : IsExponent tail) : IsFinite (whole ++ tail)
  | pointed {whole fraction tail : List Char} (nonempty : whole ≠ [] ∨ fraction ≠ [])
      (wholeDigits : AreOf decimalDigits whole) (fractionDigits : AreOf decimalDigits fraction)
      (exponent : IsExponent tail) : IsFinite (whole ++ '.' :: (fraction ++ tail))

/-- A literal of a number without blanks around it. -/
inductive IsNumeral : List Char → Prop
  | finite {sign cs : List Char} (isSign : IsSign sign) (finite : IsFinite cs) :
      IsNumeral (sign ++ cs)
  | infinity {sign : List Char} (isSign : IsSign sign) : IsNumeral (sign ++ "Infinity".toList)
  | marked {mark : Char} {alphabet ds : List Char} (marks : (mark, alphabet) ∈ radixMarks)
      (nonempty : ds ≠ []) (digits : AreOf alphabet ds) : IsNumeral ('0' :: mark :: ds)

/-! ### Digits -/

/-- What holds of all characters below 128 is checked one by one. -/
theorem of_ascii {p : Char → Prop} (all : ∀ n < 128, p (Char.ofNat n)) (low : c.toNat < 128) :
    p c := by
  have holds := all c.toNat low
  rwa [Char.ofNat_toNat] at holds

/-- A test that only characters below 128 pass is an alphabet. -/
theorem mem_iff_of_ascii {alphabet : List Char} {test : Char → Bool}
    (low : ∀ c, test c = true → c.toNat < 128)
    (lowAlphabet : alphabet.all (fun c => c.toNat < 128) = true)
    (same : ∀ n < 128, test (Char.ofNat n) = alphabet.contains (Char.ofNat n)) (c : Char) :
    test c = true ↔ c ∈ alphabet := by
  rw [← List.contains_iff_mem]
  constructor
  · intro passes
    rwa [← of_ascii (p := fun c => test c = alphabet.contains c) same (low c passes)]
  · intro mem
    have less := List.all_eq_true.mp lowAlphabet c (List.contains_iff_mem.mp mem)
    rwa [of_ascii (p := fun c => test c = alphabet.contains c) same (of_decide_eq_true less)]

theorem isDigit_iff (c : Char) : isDigit c = true ↔ c ∈ decimalDigits := by
  refine mem_iff_of_ascii (fun c digit => ?_) (by decide) (by decide) c
  have range : 48 ≤ c.toNat ∧ c.toNat ≤ 57 := by
    simpa [isDigit, Char.le_def, UInt32.le_iff_toNat_le] using digit
  omega

theorem toNat_lt_of_radixDigit? {radix : Nat} (digit : (radixDigit? radix c).isSome = true) :
    c.toNat < 128 := by
  obtain ⟨d, found⟩ := Option.isSome_iff_exists.mp digit
  have value := (Option.filter_eq_some_iff.mp found).1
  simp only [digitValue?] at value
  split at value
  · omega
  · split at value
    · omega
    · split at value
      · omega
      · cases value

/-- The digits of a radix are an alphabet. -/
theorem radixDigit?_iff {radix : Nat} {alphabet : List Char}
    (lowAlphabet : alphabet.all (fun c => c.toNat < 128) = true)
    (same : ∀ n < 128, (radixDigit? radix (Char.ofNat n)).isSome =
      alphabet.contains (Char.ofNat n)) (c : Char) :
    (radixDigit? radix c).isSome = true ↔ c ∈ alphabet :=
  mem_iff_of_ascii (fun _ => toNat_lt_of_radixDigit?) lowAlphabet same c

/-- A mark of the grammar is a mark of the reader, with the same digits. -/
theorem exists_radix {mark : Char} {alphabet : List Char} (marks : (mark, alphabet) ∈ radixMarks) :
    ∃ radix, radix? mark = some radix ∧ ∀ cs, AreDigits radix cs ↔ AreOf alphabet cs := by
  have hex : ∀ cs, AreDigits 16 cs ↔ AreOf hexDigits cs := fun _ =>
    forall₂_congr fun c _ => radixDigit?_iff (by decide) (by decide) c
  have octal : ∀ cs, AreDigits 8 cs ↔ AreOf octalDigits cs := fun _ =>
    forall₂_congr fun c _ => radixDigit?_iff (by decide) (by decide) c
  have binary : ∀ cs, AreDigits 2 cs ↔ AreOf binaryDigits cs := fun _ =>
    forall₂_congr fun c _ => radixDigit?_iff (by decide) (by decide) c
  simp only [radixMarks, List.mem_cons, Prod.mk.injEq, List.not_mem_nil, or_false] at marks
  obtain ⟨rfl, rfl⟩ | ⟨rfl, rfl⟩ | ⟨rfl, rfl⟩ | ⟨rfl, rfl⟩ | ⟨rfl, rfl⟩ | ⟨rfl, rfl⟩ := marks
  · exact ⟨16, rfl, hex⟩
  · exact ⟨16, rfl, hex⟩
  · exact ⟨8, rfl, octal⟩
  · exact ⟨8, rfl, octal⟩
  · exact ⟨2, rfl, binary⟩
  · exact ⟨2, rfl, binary⟩

/-- A mark of the reader is one of the grammar. -/
theorem exists_alphabet {mark : Char} {radix : Nat} (marked : radix? mark = some radix) :
    ∃ alphabet, (mark, alphabet) ∈ radixMarks := by
  unfold radix? at marked
  split at marked
  · next hex => exact ⟨hexDigits, by obtain rfl | rfl := hex <;> simp [radixMarks]⟩
  · split at marked
    · next octal => exact ⟨octalDigits, by obtain rfl | rfl := octal <;> simp [radixMarks]⟩
    · split at marked
      · next binary => exact ⟨binaryDigits, by obtain rfl | rfl := binary <;> simp [radixMarks]⟩
      · cases marked

/-! ### Signs and exponents -/

/-- What is split off is a sign. -/
theorem splitSign_sound (cs : List Char) : ∃ sign, IsSign sign ∧ cs = sign ++ (splitSign cs).2 := by
  unfold splitSign
  split
  · exact ⟨['-'], Or.inr (Or.inr rfl), rfl⟩
  · exact ⟨['+'], Or.inr (Or.inl rfl), rfl⟩
  · exact ⟨[], Or.inl rfl, rfl⟩

/-- A sign is split off what does not begin with one. -/
theorem splitSign_complete (isSign : IsSign sign)
    (first : ∀ c, cs.head? = some c → c ≠ '-' ∧ c ≠ '+') : (splitSign (sign ++ cs)).2 = cs := by
  obtain rfl | rfl | rfl := isSign
  · rw [List.nil_append]
    unfold splitSign
    split
    · exact absurd rfl (first _ rfl).1
    · exact absurd rfl (first _ rfl).2
    · rfl
  · rfl
  · rfl

theorem all_isDigit_iff : ds.all isDigit = true ↔ AreOf decimalDigits ds := by
  rw [List.all_eq_true]
  exact forall₂_congr fun c _ => isDigit_iff c

theorem ne_sign_of_mem (digit : c ∈ decimalDigits) : c ≠ '-' ∧ c ≠ '+' :=
  ne_sign_of_isDigit ((isDigit_iff c).mpr digit)

/-- **The reader of exponents accepts exponents.** -/
theorem exponent?_isSome_iff : (exponent? tail).isSome = true ↔ IsExponent tail := by
  constructor
  · intro read
    unfold exponent? at read
    split at read
    · exact .absent
    · next mark cs =>
      split at read
      · next marks =>
        obtain ⟨sign, isSign, split⟩ := splitSign_sound cs
        rw [split]
        dsimp only at read
        split at read
        · next digits => exact .present marks isSign digits.1 (all_isDigit_iff.mp digits.2)
        · cases read
      · cases read
  · rintro (_ | ⟨marks, isSign, nonempty, digits⟩)
    · rfl
    · next mark sign ds =>
      have split : (splitSign (sign ++ ds)).2 = ds := splitSign_complete isSign fun c first =>
        ne_sign_of_mem (digits c (List.mem_of_head? first))
      rw [exponent?, if_pos marks]
      dsimp only
      rw [split, if_pos ⟨nonempty, all_isDigit_iff.mpr digits⟩]
      rfl

/-! ### Decimals -/

/-- The digits at the front are digits. -/
theorem span_isDigit_sound (cs : List Char) : AreOf decimalDigits (cs.span isDigit).1 ∧
    cs = (cs.span isDigit).1 ++ (cs.span isDigit).2 := by
  rw [List.span_eq_takeWhile_dropWhile]
  refine ⟨fun c mem => (isDigit_iff c).mp ?_, List.takeWhile_append_dropWhile.symm⟩
  exact List.all_eq_true.mp List.all_takeWhile c mem

/-- A point and the digits after it are split off, or nothing is. -/
theorem splitFraction_sound (rest : List Char) :
    AreOf decimalDigits (splitFraction rest).1 ∧
      (rest = '.' :: ((splitFraction rest).1 ++ (splitFraction rest).2) ∨
        (splitFraction rest).1 = [] ∧ (splitFraction rest).2 = rest) := by
  unfold splitFraction
  split
  · next cs =>
    obtain ⟨digits, split⟩ := span_isDigit_sound cs
    exact ⟨digits, Or.inl (by rw [← split])⟩
  · exact ⟨fun c mem => absurd mem List.not_mem_nil, Or.inr ⟨rfl, rfl⟩⟩

/-- **What the reader of decimals accepts is a decimal with a sign or without.** -/
theorem isFinite_of_decimal? (read : (decimal? cs).isSome = true) :
    ∃ sign body, IsSign sign ∧ IsFinite body ∧ cs = sign ++ body := by
  obtain ⟨sign, isSign, split⟩ := splitSign_sound cs
  refine ⟨sign, (splitSign cs).2, isSign, ?_, split⟩
  unfold decimal? at read
  dsimp only at read
  generalize (splitSign cs).2 = body at *
  obtain ⟨wholeDigits, wholeSplit⟩ := span_isDigit_sound body
  generalize (body.span isDigit).1 = whole at *
  generalize (body.span isDigit).2 = rest at *
  obtain ⟨fractionDigits, fractionSplit⟩ := splitFraction_sound rest
  generalize (splitFraction rest).1 = fraction at *
  generalize (splitFraction rest).2 = tail at *
  split at read
  · cases read
  · next digits =>
    rw [Option.isSome_map] at read
    have exponent := exponent?_isSome_iff.mp read
    rw [wholeSplit]
    obtain rfl | ⟨rfl, rfl⟩ := fractionSplit
    · refine .pointed ?_ wholeDigits fractionDigits exponent
      rwa [← not_and_or]
    · exact .whole (fun none => digits ⟨none, rfl⟩) wholeDigits exponent

theorem head?_exponent (exponent : IsExponent tail) (first : tail.head? = some c) :
    c = 'e' ∨ c = 'E' := by
  obtain _ | ⟨marks, -, -, -⟩ := exponent
  · cases first
  · cases first
    exact marks

theorem isDigit_eq_false_of_mark (mark : c = '.' ∨ c = 'e' ∨ c = 'E') : isDigit c = false := by
  obtain rfl | rfl | rfl := mark <;> rfl

theorem span_whole (digits : AreOf decimalDigits ds)
    (stop : ∀ c, rest.head? = some c → c = '.' ∨ c = 'e' ∨ c = 'E') :
    (ds ++ rest).span isDigit = (ds, rest) :=
  span_isDigit (fun c mem => (isDigit_iff c).mpr (digits c mem))
    fun c first => isDigit_eq_false_of_mark (stop c first)

theorem splitFraction_of_exponent (exponent : IsExponent tail) : splitFraction tail = ([], tail) := by
  obtain _ | ⟨marks, -, -, -⟩ := exponent
  · rfl
  · obtain rfl | rfl := marks <;> rfl

theorem head?_isFinite (finite : IsFinite cs) (first : cs.head? = some c) : c ≠ '-' ∧ c ≠ '+' := by
  have digit : ∀ {ds rest : List Char}, AreOf decimalDigits ds → ds ≠ [] →
      (ds ++ rest).head? = some c → c ≠ '-' ∧ c ≠ '+' := by
    intro ds rest digits nonempty first
    obtain ⟨d, ds, rfl⟩ := List.exists_cons_of_ne_nil nonempty
    cases first
    exact ne_sign_of_mem (digits c List.mem_cons_self)
  cases finite with
  | whole nonempty digits => exact digit digits nonempty first
  | @pointed whole fraction tail _ wholeDigits =>
    by_cases none : whole = []
    · rw [none] at first
      cases first
      decide
    · exact digit wholeDigits none first

/-- **The reader of decimals accepts decimals.** -/
theorem decimal?_of_isFinite (isSign : IsSign sign) (finite : IsFinite cs) :
    (decimal? (sign ++ cs)).isSome = true := by
  have stop : ∀ {tail c}, IsExponent tail → tail.head? = some c → c = '.' ∨ c = 'e' ∨ c = 'E' :=
    fun exponent first => Or.inr (head?_exponent exponent first)
  have split := splitSign_complete isSign fun c => head?_isFinite finite
  unfold decimal?
  dsimp only
  rw [split]
  cases finite with
  | @whole whole tail nonempty digits exponent =>
    rw [span_whole digits fun c => stop exponent]
    dsimp only
    rw [splitFraction_of_exponent exponent]
    dsimp only
    rw [if_neg (fun none => nonempty none.1), Option.isSome_map, exponent?_isSome_iff]
    exact exponent
  | @pointed whole fraction tail nonempty wholeDigits fractionDigits exponent =>
    have point : splitFraction ('.' :: (fraction ++ tail)) = (fraction, tail) :=
      span_whole fractionDigits fun c => stop exponent
    rw [span_whole wholeDigits fun c first => by cases first; exact Or.inl rfl]
    dsimp only
    rw [point]
    dsimp only
    rw [if_neg (by rwa [not_and_or]), Option.isSome_map, exponent?_isSome_iff]
    exact exponent

/-! ### The characters of decimals -/

theorem areOf_append {alphabet as bs : List Char} (left : AreOf alphabet as)
    (right : AreOf alphabet bs) : AreOf alphabet (as ++ bs) := fun c mem =>
  (List.mem_append.mp mem).elim (left c) (right c)

theorem areOf_cons {alphabet cs : List Char} (first : c ∈ alphabet) (rest : AreOf alphabet cs) :
    AreOf alphabet (c :: cs) := List.forall_mem_cons.mpr ⟨first, rest⟩

theorem areOf_decimalChars (digits : AreOf decimalDigits ds) : AreOf decimalChars ds :=
  fun c mem => mem_decimalChars_of_isDigit ((isDigit_iff c).mpr (digits c mem))

theorem areOf_of_isSign (isSign : IsSign sign) : AreOf decimalChars sign := by
  obtain rfl | rfl | rfl := isSign <;> decide

theorem areOf_of_isExponent (exponent : IsExponent tail) : AreOf decimalChars tail := by
  obtain _ | ⟨marks, isSign, -, digits⟩ := exponent
  · exact fun c mem => absurd mem List.not_mem_nil
  · refine areOf_cons ?_ (areOf_append (areOf_of_isSign isSign) (areOf_decimalChars digits))
    obtain rfl | rfl := marks <;> decide

theorem areOf_of_isFinite (finite : IsFinite cs) : AreOf decimalChars cs := by
  cases finite with
  | whole _ digits exponent =>
    exact areOf_append (areOf_decimalChars digits) (areOf_of_isExponent exponent)
  | pointed _ wholeDigits fractionDigits exponent =>
    exact areOf_append (areOf_decimalChars wholeDigits) (areOf_cons (by decide)
      (areOf_append (areOf_decimalChars fractionDigits) (areOf_of_isExponent exponent)))

/-! ### Results that are numbers -/

theorem ofUnits_ne_nan (negative : Bool) (num den : Nat) :
    Double.ofUnits negative num den ≠ .nan := by
  unfold Double.ofUnits
  split <;> exact nofun

theorem ofDecimal_ne_nan (negative : Bool) (digits : Nat) (exponent : Int) :
    Double.ofDecimal negative digits exponent ≠ .nan := by
  unfold Double.ofDecimal
  split
  · exact nofun
  · split
    · exact nofun
    · split
      · exact nofun
      · split <;> exact ofUnits_ne_nan _ _ _

theorem ne_nan_of_decimal? {x : Double} (read : decimal? cs = some x) : x ≠ .nan := by
  unfold decimal? at read
  dsimp only at read
  split at read
  · cases read
  · obtain ⟨e, -, rfl⟩ := Option.map_eq_some_iff.mp read
    exact ofDecimal_ne_nan _ _ _

/-- A character that is no digit of the radix spoils the number. -/
theorem areDigits_of_takeDigits {radix : Nat} {acc : Double}
    (number : takeDigits radix acc cs ≠ .nan) : AreDigits radix cs := by
  induction cs generalizing acc with
  | nil => exact fun c mem => absurd mem List.not_mem_nil
  | cons c cs ih =>
    rw [takeDigits] at number
    split at number
    · next d digit =>
      exact List.forall_mem_cons.mpr ⟨Option.isSome_iff_exists.mpr ⟨d, digit⟩, ih number⟩
    · exact absurd rfl number

/-- Only digits of the radix, at least one, make a number. -/
theorem radixNumber_ne_nan_iff {radix : Nat} {mark : Char} (marked : radix? mark = some radix) :
    radixNumber radix cs ≠ .nan ↔ cs ≠ [] ∧ AreDigits radix cs := by
  cases cs with
  | nil => exact ⟨fun number => absurd rfl number, fun valid => absurd rfl valid.1⟩
  | cons c cs =>
    constructor
    · exact fun number => ⟨List.cons_ne_nil c cs, areDigits_of_takeDigits number⟩
    · rintro ⟨-, digits⟩
      obtain ⟨b, few, rfl⟩ := exists_two_pow_of_radix? marked
      rw [radixNumber, ← Double.ofNat_zero, takeDigits_ofNat few digits]
      · exact ofUnits_ne_nan _ _ _
      · exact List.cons_ne_nil c cs

/-! ### Names -/

/-- The first letters of the names are refused, capital or small. -/
theorem isForeign_of_toLower (lower : c.toLower = 'i' ∨ c.toLower = 'n') : isForeign c = true := by
  have low : c.toNat < 128 := by
    unfold Char.toLower at lower
    split at lower
    · next capital =>
      have last : c.toNat ≤ 'Z'.toNat := UInt32.le_iff_toNat_le.mp capital.2
      exact Nat.lt_of_le_of_lt last (by decide)
    · obtain rfl | rfl := lower <;> decide
  exact of_ascii (p := fun c => c.toLower = 'i' ∨ c.toLower = 'n' → isForeign c = true)
    (by decide) low lower

/-- The names of infinities and of not-a-number are refused by a letter. -/
theorem named?_eq_none (permitted : cs.any isForeign = false) : named? cs = none := by
  obtain ⟨sign, -, split⟩ := splitSign_sound cs
  have other : ∀ {d : Char} {name : List Char}, d = 'i' ∨ d = 'n' →
      (splitSign cs).2.map Char.toLower ≠ d :: name := by
    intro d name first same
    obtain ⟨c, rest, letters, rfl, -⟩ := List.map_eq_cons_iff.mp same
    have mem : c ∈ cs := by
      rw [split, letters]
      exact List.mem_append_right _ List.mem_cons_self
    exact absurd (isForeign_of_toLower first) (List.any_eq_false.mp permitted c mem)
  unfold named?
  dsimp only
  have infinities : ¬((splitSign cs).2.map Char.toLower = "inf".toList ∨
      (splitSign cs).2.map Char.toLower = "infinity".toList) :=
    not_or.mpr ⟨other (Or.inl rfl), other (Or.inl rfl)⟩
  have notNumber : (splitSign cs).2.map Char.toLower ≠ "nan".toList := other (Or.inr rfl)
  rw [if_neg infinities, if_neg notNumber]

/-- Without a name only a decimal is read. -/
theorem isNumeral_of_unmarked (number : unmarked cs ≠ .nan) : IsNumeral cs := by
  unfold unmarked at number
  split at number
  · next x infinity =>
    obtain ⟨sign, isSign, split⟩ := splitSign_sound cs
    unfold infinity? at infinity
    dsimp only at infinity
    split at infinity
    · next name =>
      rw [split, name]
      exact .infinity isSign
    · cases infinity
  · split at number
    · exact absurd rfl number
    · next permitted =>
      rw [read?, named?_eq_none (Bool.eq_false_iff.mpr permitted), Option.or_none] at number
      have read : (decimal? cs).isSome = true := by
        cases read : decimal? cs with
        | some x => rfl
        | none => exact absurd (by rw [read]; rfl) number
      obtain ⟨sign, body, isSign, finite, split⟩ := isFinite_of_decimal? read
      rw [split]
      exact .finite isSign finite

/-! ### All literals -/

theorem marked?_eq {mark : Char} {radix : Nat} (marked : radix? mark = some radix) :
    marked? ('0' :: mark :: cs) = some (radixNumber radix cs) := by
  rw [marked?, marked, Option.map_some]

theorem isNumeral_of_number (nonempty : cs ≠ []) (number : number cs ≠ .nan) : IsNumeral cs := by
  rw [Literal.number, if_neg nonempty] at number
  cases marked : marked? cs with
  | none =>
    rw [marked, Option.getD_none] at number
    exact isNumeral_of_unmarked number
  | some x =>
    rw [marked, Option.getD_some] at number
    unfold marked? at marked
    split at marked
    · next mark rest =>
      obtain ⟨radix, isMark, rfl⟩ := Option.map_eq_some_iff.mp marked
      obtain ⟨alphabet, marks⟩ := exists_alphabet isMark
      obtain ⟨radix', isMark', digits⟩ := exists_radix marks
      rw [isMark] at isMark'
      cases isMark'
      obtain ⟨nonempty, valid⟩ := (radixNumber_ne_nan_iff isMark).mp number
      exact .marked marks nonempty ((digits rest).mp valid)
    · cases marked

theorem number_of_isNumeral (numeral : IsNumeral cs) : number cs ≠ .nan := by
  cases numeral with
  | @finite sign cs isSign finite =>
    obtain ⟨x, read⟩ := Option.isSome_iff_exists.mp (decimal?_of_isFinite isSign finite)
    have plain := areOf_append (areOf_of_isSign isSign) (areOf_of_isFinite finite)
    rw [number_of_decimal? plain read]
    exact ne_nan_of_decimal? read
  | infinity isSign => obtain rfl | rfl | rfl := isSign <;> decide
  | @marked mark alphabet ds marks nonempty digits =>
    obtain ⟨radix, isMark, same⟩ := exists_radix marks
    rw [number, if_neg (List.cons_ne_nil _ _), marked?_eq isMark, Option.getD_some,
      radixNumber_ne_nan_iff isMark]
    exact ⟨nonempty, (same ds).mpr digits⟩

/-- **A literal is a number exactly when it is a numeral of the grammar**, or empty. -/
theorem number_ne_nan_iff (cs : List Char) : number cs ≠ .nan ↔ cs = [] ∨ IsNumeral cs := by
  by_cases empty : cs = []
  · rw [empty]
    exact ⟨fun _ => Or.inl rfl, fun _ => nofun⟩
  · simp only [empty, false_or]
    exact ⟨isNumeral_of_number empty, number_of_isNumeral⟩

end HostObjects.Literal
