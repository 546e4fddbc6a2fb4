import HostObjects.Number.Double

/-!
# Shortest decimals

The decimal with the fewest digits among those that round to a given magnitude, and of those the
nearest to it. Two of them can be equally near; a `TieRule` says which one is taken.

All quantities are counted in quarters of `10 ^ -1074`. Every double and every midpoint between two
neighbouring doubles is a whole number of these, and so is every multiple of a power of ten from
`10 ^ -1074` up. The interval of numbers that round to the magnitude contains its ends exactly when
the mantissa is even. The search goes from a grid too coarse to hit the interval down to the grid
`10 ^ -1074`, on which the magnitude itself lies, and stops at the first grid with a hit; on each
grid only the two neighbours of the magnitude need a test.
-/

namespace HostObjects.Shortest

/-- The choice between two equally near neighbours. -/
inductive TieRule where
  /-- The even one. -/
  | even
  /-- The greater one. -/
  | up
deriving DecidableEq

/-- The choice between a number and the next one. -/
def TieRule.choose : TieRule → Nat → Nat
  | .even, q => q + q % 2
  | .up, q => q + 1

/-- A decimal number `digits * 10 ^ exponent`. -/
structure Decimal where
  digits : Nat
  /-- The power of ten that scales them. -/
  exponent : Int
deriving DecidableEq

/-- The exponent of the finest grid, negated. -/
def finest : Nat := 1074

/-- One unit of `2 ^ -1074`, counted in units of `10 ^ -1074`. -/
def decimalUnit : Nat := 5 ^ finest

/-- The magnitude in quarters of `10 ^ -1074`. -/
def quarters (m : Magnitude) : Nat := 4 * (m.count * decimalUnit)

/-- Half the distance to the magnitude above. -/
def gapAbove (m : Magnitude) : Nat := 2 * (2 ^ m.scale * decimalUnit)

/-- Half the distance to the magnitude below, which is nearer when the mantissa is the least one
of its scale. -/
def gapBelow (m : Magnitude) : Nat :=
  if m.mantissa = 2 ^ 52 ∧ 0 < m.scale then 2 ^ m.scale * decimalUnit
  else 2 * (2 ^ m.scale * decimalUnit)

/-- Whether the number rounds to the magnitude. -/
def roundsTo (m : Magnitude) (n : Nat) : Bool :=
  if m.mantissa % 2 = 0 then quarters m ≤ n + gapBelow m && n ≤ quarters m + gapAbove m
  else quarters m < n + gapBelow m && n < quarters m + gapAbove m

/-- The multiple of `step` to prefer among the two neighbours of the magnitude: the one that rounds
to it, and if both do, the nearer, or the one that the rule takes in a tie. -/
def onGrid? (tie : TieRule) (m : Magnitude) (step : Nat) : Option Nat :=
  let v := quarters m
  let q := v / step
  let r := v % step
  match roundsTo m (q * step), roundsTo m ((q + 1) * step) with
  | false, false => none
  | true, false => some q
  | false, true => some (q + 1)
  | true, true =>
    if 2 * r < step then some q
    else if step < 2 * r then some (q + 1)
    else some (tie.choose q)

/-- Searches the grids `10 ^ (n - 1074)`, `10 ^ (n - 1 - 1074)`, … downward. -/
def search (tie : TieRule) (m : Magnitude) : Nat → Decimal
  | 0 => ⟨quarters m / 4, -finest⟩
  | n + 1 =>
    match onGrid? tie m (4 * 10 ^ (n + 1)) with
    | some q => ⟨q, (n + 1 : Nat) - (finest : Int)⟩
    | none => search tie m n

/-- A grid too coarse to hit the interval of a magnitude: its step is beyond twice the
magnitude. -/
def coarsest (m : Magnitude) : Nat := Nat.log2 (m.count * decimalUnit) / 3 + 2

/-- The shortest decimal that rounds to the magnitude. -/
def shortest (tie : TieRule) (m : Magnitude) : Decimal := search tie m (coarsest m)

end HostObjects.Shortest
