import HostObjects.Number.Power
import HostObjects.Text

/-!
# Array indexes

A text names a position in an array when it is the decimal numeral of a number below `2^32 - 1`,
written without leading zeros. `Text.ofNat` writes the numeral, `Text.index?` reads it; the largest
32-bit number is no index, because it is one more than any array's last position.

The numeral is read in 32-bit numbers, digit by digit, and a product or a sum that is no 32-bit
number ends the reading.
-/

namespace HostObjects.Text

/-- The decimal numeral of a number, without leading zeros. -/
def ofNat (n : Nat) : Text := ofChars (Nat.toDigits 10 n)

/-- Whether a unit is one of the ten digits. -/
def isDigit (u : UInt16) : Bool := 48 ≤ u.toNat && u.toNat ≤ 57

/-- The product, if it is a 32-bit number. -/
def times? (a b : UInt32) : Option UInt32 :=
  if a.toNat * b.toNat < 2 ^ 32 then some (a * b) else none

/-- The sum, if it is a 32-bit number. -/
def plus? (a b : UInt32) : Option UInt32 :=
  if a.toNat + b.toNat < 2 ^ 32 then some (a + b) else none

/-- Takes one more digit into a number. -/
def takeDigit? (n : UInt32) (u : UInt16) : Option UInt32 :=
  if isDigit u then (times? n 10).bind fun m => plus? m (u - 48).toUInt32 else none

/-- Takes digits into a number, first to last. -/
def takeDigits? (n : UInt32) : List UInt16 → Option UInt32
  | [] => some n
  | u :: us => (takeDigit? n u).bind fun m => takeDigits? m us

/-- One more than the greatest array index. -/
def indexBound : UInt32 := 0xffffffff

/-- The array index the text names: digits only, at least one, no leading zero, below the
bound. -/
def index? (t : Text) : Option UInt32 :=
  if t.units = [] ∨ (1 < t.units.length ∧ t.units.head? = some 48) then none
  else (takeDigits? 0 t.units).filter (· ≠ indexBound)

end HostObjects.Text
