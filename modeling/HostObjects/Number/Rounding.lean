import HostObjects.Number.Double

/-!
# Rounding

The double nearest to a fraction of natural numbers, a tie going to the even mantissa and a
magnitude beyond the greatest going to infinity. `roundHalfEven` is the one rounding rule;
arithmetic on doubles and the reading of decimals are fractions put through it.
-/

namespace HostObjects

/-- The integer nearest to `num / den`, a tie going to the even one. -/
def roundHalfEven (num den : Nat) : Nat :=
  let q := num / den
  let r := num % den
  if 2 * r < den then q
  else if den < 2 * r then q + 1
  else q + q % 2

namespace Magnitude

/-- The number of low bits that do not fit a mantissa of 53 bits. -/
def excessBits (n : Nat) : Nat := Nat.log2 n - 52

/-- The magnitude nearest to `num / den` units, or `none` beyond the greatest magnitude. -/
def nearest? (num den : Nat) : Option Magnitude :=
  let scale := excessBits (num / den)
  let mantissa := roundHalfEven num (den * 2 ^ scale)
  if mantissa < 2 ^ 53 then ofParts? mantissa scale
  else ofParts? (mantissa / 2) (scale + 1)

end Magnitude

namespace Double

/-- The units of `2 ^ -1074` in one. -/
def unitsPerOne : Nat := 2 ^ 1074

/-- The double nearest to `num / den` units. -/
def ofUnits (negative : Bool) (num den : Nat) : Double :=
  match Magnitude.nearest? num den with
  | some m => .finite negative m
  | none => .infinite negative

/-- The double nearest to a natural number. -/
def ofNat (n : Nat) : Double := ofUnits false (n * unitsPerOne) 1

/-- The double nearest to an integer. -/
def ofInt (n : Int) : Double := ofUnits (n < 0) (n.natAbs * unitsPerOne) 1

/-- `acc * radix + digit` for a number that is not negative, rounded after the product and again
after the sum. -/
def shiftIn (acc : Double) (radix digit : Nat) : Double :=
  match acc with
  | .finite _ m =>
    match ofUnits false (m.count * radix) 1 with
    | .finite _ p => ofUnits false (p.count + digit * unitsPerOne) 1
    | other => other
  | other => other

/-- The double nearest to `digits * 10 ^ exponent`. Exponents that put every such number beyond the
greatest double, or below half the least, are answered without forming the power. -/
def ofDecimal (negative : Bool) (digits : Nat) (exponent : Int) : Double :=
  if digits = 0 then .finite negative Magnitude.zero
  else if 310 < exponent then .infinite negative
  else if exponent + (Nat.log2 digits / 3 + 1 : Nat) < -330 then .finite negative Magnitude.zero
  else
    match exponent with
    | .ofNat e => ofUnits negative (digits * 10 ^ e * unitsPerOne) 1
    | .negSucc e => ofUnits negative (digits * unitsPerOne) (10 ^ (e + 1))

end Double

end HostObjects
