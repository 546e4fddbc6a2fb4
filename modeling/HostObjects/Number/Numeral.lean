import HostObjects.Number.Shortest
import HostObjects.Text

/-!
# Numerals

How a double is written. A finite number other than zero is written with its shortest digits, either
positionally or with an exponent; which of the two is decided by the position of the decimal point
relative to the first digit. A positional numeral always has a point, so a whole number ends in a
point and a zero. A `NumeralStyle` fixes the range of positional numerals and the choice of digits,
so one printer serves both the conversion of numbers to strings and the diagnostic texts.

As a string a number is its numeral without the mark of a whole number (`Numeral.bare`), and zero
and the infinities have spellings of their own.
-/

namespace HostObjects

/-- The decisions of a numeral format. -/
structure NumeralStyle where
  /-- The point stands at least here, counted from before the first digit, in positional form. -/
  leastPoint : Int
  /-- The point stands at most here in positional form. -/
  greatestPoint : Int
  /-- Which of two equally near shortest decimals is written. -/
  tie : Shortest.TieRule

namespace NumeralStyle

/-- Numbers as strings: positional from `0.00001` on and below `10 ^ 16`, the even last digit in a
tie. -/
def plain : NumeralStyle := ⟨-4, 16, .even⟩

/-- Numbers in diagnostics: positional from `0.0001` on and below `10 ^ 16`, the greater last digit
in a tie. -/
def diagnostic : NumeralStyle := ⟨-3, 16, .up⟩

end NumeralStyle

namespace Numeral

/-- The digits of a natural number, most significant first. -/
def digitChars (n : Nat) : List Char := Nat.toDigits 10 n

/-- A number of zeros. -/
def zeros (n : Nat) : List Char := List.replicate n '0'

/-- The numeral of an integer. -/
def integer (n : Int) : List Char :=
  match n with
  | .ofNat n => digitChars n
  | .negSucc n => '-' :: digitChars (n + 1)

/-- The end of a positional whole number. -/
def wholeMark : List Char := ['.', '0']

/-- The digits with the point `point` places after the first one. -/
def positional (ds : List Char) (point : Int) : List Char :=
  match point with
  | .ofNat 0 => '0' :: '.' :: ds
  | .negSucc n => '0' :: '.' :: zeros (n + 1) ++ ds
  | .ofNat n =>
    if ds.length ≤ n then ds ++ zeros (n - ds.length) ++ wholeMark
    else ds.take n ++ '.' :: ds.drop n

/-- The first digit, a point and the other digits if there are any, and the exponent. -/
def scientific (ds : List Char) (point : Int) : List Char :=
  ds.take 1 ++ (if ds.length ≤ 1 then [] else '.' :: ds.drop 1) ++ 'e' :: integer (point - 1)

/-- The numeral of a positive decimal. -/
def ofDecimal (style : NumeralStyle) (d : Shortest.Decimal) : List Char :=
  let ds := digitChars d.digits
  let point := ds.length + d.exponent
  if style.leastPoint ≤ point ∧ point ≤ style.greatestPoint then positional ds point
  else scientific ds point

/-- The numeral of a magnitude. -/
def ofMagnitude (style : NumeralStyle) (m : Magnitude) : List Char :=
  if m.mantissa = 0 then '0' :: wholeMark else ofDecimal style (Shortest.shortest style.tie m)

/-- The minus sign, if there is one. -/
def sign (negative : Bool) : List Char := if negative then ['-'] else []

/-- The numeral of a double. -/
def ofDouble (style : NumeralStyle) : Double → List Char
  | .nan => "NaN".toList
  | .infinite negative => sign negative ++ "inf".toList
  | .finite negative m => sign negative ++ ofMagnitude style m

/-- The numeral without the mark of a whole number. -/
def bare (cs : List Char) : List Char :=
  if wholeMark.isSuffixOf cs then cs.take (cs.length - wholeMark.length) else cs

end Numeral

namespace Double

/-- The characters of a number as a string. Both zeros are written alike. -/
def toChars : Double → List Char
  | .nan => "NaN".toList
  | .infinite negative => (if negative then "-Infinity" else "Infinity").toList
  | .finite negative m =>
    if m.mantissa = 0 then ['0'] else Numeral.bare (Numeral.ofDouble .plain (.finite negative m))

/-- The text of a number. -/
def toText (x : Double) : Text := Text.ofChars x.toChars

end Double

end HostObjects
