import HostObjects.Number.Rounding
import HostObjects.Text.Blank
import HostObjects.Text

/-!
# Number literals

The number that a text denotes. Blanks around the literal do not count, and a text of blanks alone
denotes zero. The rest is one of three kinds, tried in this order:

* an integer with a radix mark `0x`, `0o` or `0b`, without a sign;
* `Infinity`, with a sign or without;
* a decimal with an optional sign, point and exponent.

Anything else is not a number. A decimal is rounded once, from its exact value. An integer with a
radix mark is taken in digit by digit, and every step rounds.

Decimals are read by a reader that knows more than this format: it takes names of the infinities and
of not-a-number in any case (`Literal.named?`). A letter other than the mark of an exponent is
refused before that reader is asked (`Literal.isForeign`).
-/

namespace HostObjects.Literal

/-! ### Integers with a radix mark -/

/-- The radix that a mark letter stands for. -/
def radix? (mark : Char) : Option Nat :=
  if mark = 'x' ∨ mark = 'X' then some 16
  else if mark = 'o' ∨ mark = 'O' then some 8
  else if mark = 'b' ∨ mark = 'B' then some 2
  else none

/-- The value of a digit or letter as a digit, whatever the radix. -/
def digitValue? (c : Char) : Option Nat :=
  let n := c.toNat
  if 48 ≤ n ∧ n ≤ 57 then some (n - 48)
  else if 65 ≤ n ∧ n ≤ 90 then some (n - 55)
  else if 97 ≤ n ∧ n ≤ 122 then some (n - 87)
  else none

/-- The value of a digit of the radix. -/
def radixDigit? (radix : Nat) (c : Char) : Option Nat :=
  (digitValue? c).filter (· < radix)

/-- Takes in digits from the left; a character that is no digit of the radix spoils the number. -/
def takeDigits (radix : Nat) (acc : Double) : List Char → Double
  | [] => acc
  | c :: cs =>
    match radixDigit? radix c with
    | some d => takeDigits radix (acc.shiftIn radix d) cs
    | none => .nan

/-- The number after a radix mark, which needs at least one digit. -/
def radixNumber (radix : Nat) : List Char → Double
  | [] => .nan
  | cs => takeDigits radix .zero cs

/-- The number of a literal that starts with a radix mark. -/
def marked? : List Char → Option Double
  | '0' :: mark :: rest => (radix? mark).map fun radix => radixNumber radix rest
  | _ => none

/-! ### Decimals -/

/-- Whether the character is one of the ten digits. -/
def isDigit (c : Char) : Bool := '0' ≤ c && c ≤ '9'

/-- The number that a list of digits denotes. -/
def digitsValue (cs : List Char) : Nat := cs.foldl (fun n c => n * 10 + (c.toNat - 48)) 0

/-- Takes a sign off the front: whether it is a minus, and the rest. -/
def splitSign : List Char → Bool × List Char
  | '-' :: cs => (true, cs)
  | '+' :: cs => (false, cs)
  | cs => (false, cs)

/-- The digits after the point, if a point comes next, and the rest. -/
def splitFraction : List Char → List Char × List Char
  | '.' :: cs => cs.span isDigit
  | cs => ([], cs)

/-- The exponent that makes up all of the text; no text is the exponent zero. -/
def exponent? : List Char → Option Int
  | [] => some 0
  | c :: cs =>
    if c = 'e' ∨ c = 'E' then
      let (negative, ds) := splitSign cs
      if ds ≠ [] ∧ ds.all isDigit then
        some (if negative then -(digitsValue ds : Int) else digitsValue ds)
      else none
    else none

/-- A decimal: sign, digits, point and digits, exponent, with at least one digit before the
exponent. -/
def decimal? (cs : List Char) : Option Double :=
  let (negative, body) := splitSign cs
  let (whole, rest) := body.span isDigit
  let (fraction, tail) := splitFraction rest
  if whole = [] ∧ fraction = [] then none
  else
    (exponent? tail).map fun e =>
      Double.ofDecimal negative (digitsValue (whole ++ fraction)) (e - fraction.length)

/-- The number that a name stands for, in capital or small letters, with a sign or without. -/
def named? (cs : List Char) : Option Double :=
  let (negative, letters) := splitSign cs
  let name := letters.map Char.toLower
  if name = "inf".toList ∨ name = "infinity".toList then some (.infinite negative)
  else if name = "nan".toList then some .nan
  else none

/-- What the reader of decimals makes of a text. -/
def read? (cs : List Char) : Option Double := (decimal? cs).or (named? cs)

/-! ### All literals -/

/-- The infinity the literal spells, if it does. -/
def infinity? (cs : List Char) : Option Double :=
  let (negative, name) := splitSign cs
  if name = "Infinity".toList then some (.infinite negative) else none

/-- Whether the character is a letter that no decimal has. -/
def isForeign (c : Char) : Bool := c.isAlpha && c != 'e' && c != 'E'

/-- The number of a literal without a radix mark. -/
def unmarked (cs : List Char) : Double :=
  match infinity? cs with
  | some x => x
  | none => if cs.any isForeign then .nan else (read? cs).getD .nan

/-- The number of a literal without blanks around it. -/
def number (cs : List Char) : Double :=
  if cs = [] then .zero
  else (marked? cs).getD (unmarked cs)

end HostObjects.Literal

namespace HostObjects

/-- The number a text denotes, or not-a-number. -/
def Text.toDouble (t : Text) : Double := Literal.number (trimBlanks t.chars)

end HostObjects
