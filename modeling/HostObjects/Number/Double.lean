import HostObjects.Number.Power

/-!
# Doubles

A double is not a number, an infinity, or a sign with a magnitude `mantissa * 2 ^ scale` counted in
units of `2 ^ -1074`, the least positive magnitude. Every finite double is a whole number of these
units, so the arithmetic of this library on doubles is arithmetic on natural numbers, and nothing
rests on the machine's own floating point.

A magnitude is kept in its one canonical form: the mantissa has at most 53 bits, and exactly 53
once the scale is above zero. `Double.ofBits` and `Double.toBits` are the interchange format of 64
bits; all patterns of not-a-number are one value here.
-/

namespace HostObjects

/-- The condition under which a mantissa and a scale are the canonical form of a magnitude. -/
def IsCanonical (mantissa scale : Nat) : Prop :=
  mantissa < 2 ^ 53 ∧ scale ≤ 2045 ∧ (scale = 0 ∨ 2 ^ 52 ≤ mantissa)

instance (mantissa scale : Nat) : Decidable (IsCanonical mantissa scale) :=
  inferInstanceAs (Decidable (_ ∧ _ ∧ _))

/-- The magnitude of a finite double, `mantissa * 2 ^ scale` units of `2 ^ -1074`. -/
structure Magnitude where
  mantissa : Nat
  /-- The power of two by which they are scaled. -/
  scale : Nat
  /-- Each magnitude has one form. -/
  canonical : IsCanonical mantissa scale
deriving DecidableEq

namespace Magnitude

/-- The magnitude zero. -/
def zero : Magnitude := ⟨0, 0, by decide⟩

/-- The number of units of `2 ^ -1074`. -/
def count (m : Magnitude) : Nat := m.mantissa * 2 ^ m.scale

/-- The magnitude with these parts, if they are canonical. -/
def ofParts? (mantissa scale : Nat) : Option Magnitude :=
  if h : IsCanonical mantissa scale then some ⟨mantissa, scale, h⟩ else none

end Magnitude

/-- A double-precision number. -/
inductive Double where
  | nan
  | infinite (negative : Bool)
  /-- A finite number; zero has a sign too. -/
  | finite (negative : Bool) (magnitude : Magnitude)
deriving DecidableEq

namespace Double

/-- Positive zero. -/
def zero : Double := .finite false Magnitude.zero

instance : Inhabited Double := ⟨zero⟩

/-- Whether the number is one of the two zeros. -/
def isZero : Double → Bool
  | .finite _ m => m.mantissa == 0
  | _ => false

/-- Whether the value is not a number. -/
def isNaN : Double → Bool
  | .nan => true
  | _ => false

/-- Numeric equality: not-a-number differs from everything, and the zeros are equal. -/
def equal (a b : Double) : Bool :=
  match a, b with
  | .nan, _ => false
  | _, .nan => false
  | a, b => (a.isZero && b.isZero) || a == b

/-! ### The interchange format -/

/-- The double of a 64-bit pattern: a sign bit, eleven bits of exponent, 52 bits of fraction. -/
def ofBits (bits : UInt64) : Double :=
  let n := bits.toNat
  let negative := 2 ^ 63 ≤ n
  let exponent := n / 2 ^ 52 % 2 ^ 11
  let fraction := n % 2 ^ 52
  if exponent = 2 ^ 11 - 1 then
    if fraction = 0 then .infinite negative else .nan
  else
    let parts :=
      if exponent = 0 then Magnitude.ofParts? fraction 0
      else Magnitude.ofParts? (2 ^ 52 + fraction) (exponent - 1)
    match parts with
    | some m => .finite negative m
    | none => .nan

/-- The exponent and fraction fields of a magnitude, as one number. -/
def magnitudeBits (m : Magnitude) : Nat :=
  if m.mantissa < 2 ^ 52 then m.mantissa
  else (m.scale + 1) * 2 ^ 52 + (m.mantissa - 2 ^ 52)

/-- The sign field. -/
def signBits (negative : Bool) : Nat := if negative then 2 ^ 63 else 0

/-- The 64-bit pattern of a double; not-a-number has the quiet pattern. -/
def toBits : Double → UInt64
  | .nan => 0x7ff8000000000000
  | .infinite negative => UInt64.ofNat (signBits negative + (2 ^ 11 - 1) * 2 ^ 52)
  | .finite negative m => UInt64.ofNat (signBits negative + magnitudeBits m)

end Double

end HostObjects
