import HostObjects.Number.Numeral
import HostObjects.Proofs.Number.Nearest
import HostObjects.Proofs.Number.Shortest
import Mathlib.Algebra.Order.Field.Power
import Mathlib.Algebra.Order.Field.Rat
import Mathlib.Tactic.FieldSimp
import Mathlib.Tactic.Linarith
import Mathlib.Tactic.NormNum
import Mathlib.Tactic.Positivity

/-!
# What the shortest decimal is

The shortest decimal of a magnitude is among those that read as the magnitude: the one with
the fewest digits, of these the nearest to the magnitude, and of two as near the even one
(`IsShortest`).  There is one, and the search finds it (`isShortest_iff`).

The search looks for the coarsest grid, not for the fewest digits.  A number on a finer grid
with no more digits is below the power of ten at the first digit of the number found, and
that power is in the interval too.  It is on a coarser grid unless the number found has one
digit.  So one digit against one digit remains, at most nine of the finer unit against one of
the coarser.  An interval as wide as that belongs to a magnitude of a few units, where the
power of ten is known (`ten_zpow_bounds`), and the coarser one is nearer
(`one_digit_nearer`).

Numbers are compared as rationals here, because a decimal can be finer than any grid of the
search.
-/

namespace HostObjects

open Shortest

namespace Magnitude

/-! ### Intervals of rational numbers -/

/-- The magnitude as a number. -/
def value (m : Magnitude) : ℚ := m.count / 2 ^ finest

/-- Half the distance to the magnitude above, as a number. -/
def above (m : Magnitude) : ℚ := m.reachAbove / (4 * 2 ^ finest)

/-- Half the distance to the magnitude below, as a number. -/
def below (m : Magnitude) : ℚ := m.reachBelow / (4 * 2 ^ finest)

/-- The number is in the interval of the magnitude. -/
structure Catches (m : Magnitude) (x : ℚ) : Prop where
  lower : m.value ≤ x + m.below
  upper : x ≤ m.value + m.above
  /-- The ends belong to an even mantissa only. -/
  inside : m.mantissa % 2 = 0 ∨ m.value < x + m.below ∧ x < m.value + m.above

variable {m : Magnitude} {x y z : ℚ}

theorem value_mul (m : Magnitude) (s : ℚ) : m.value * (4 * 2 ^ finest * s) = 4 * (m.count * s) := by
  rw [value]
  field_simp

theorem above_mul (m : Magnitude) (s : ℚ) : m.above * (4 * 2 ^ finest * s) = m.reachAbove * s := by
  rw [above]
  field_simp

theorem below_mul (m : Magnitude) (s : ℚ) : m.below * (4 * 2 ^ finest * s) = m.reachBelow * s := by
  rw [below]
  field_simp

/-- The interval in quarters of a fraction of the unit. -/
theorem catches_iff_of_scaled {s : ℚ} (pos : 0 < s) (scaled : x * (4 * 2 ^ finest * s) = y) :
    m.Catches x ↔ 4 * (m.count * s) ≤ y + m.reachBelow * s ∧
      y ≤ 4 * (m.count * s) + m.reachAbove * s ∧
      (m.mantissa % 2 = 0 ∨ 4 * (m.count * s) < y + m.reachBelow * s ∧
        y < 4 * (m.count * s) + m.reachAbove * s) := by
  have unit : 0 < 4 * 2 ^ finest * s := by positivity
  simp only [← scaled, ← value_mul, ← above_mul, ← below_mul, ← add_mul,
    mul_le_mul_iff_left₀ unit, mul_lt_mul_iff_left₀ unit]
  exact ⟨fun ⟨lower, upper, inside⟩ => ⟨lower, upper, inside⟩,
    fun ⟨lower, upper, inside⟩ => ⟨lower, upper, inside⟩⟩

theorem catches_of_draws {num den : Nat} (pos : 0 < den) (draws : m.Draws num den)
    (same : x * (4 * 2 ^ finest * den) = 4 * num) : m.Catches x := by
  rw [catches_iff_of_scaled (Nat.cast_pos.mpr pos) same]
  exact ⟨mod_cast draws.lower, mod_cast draws.upper, mod_cast draws.inside⟩

/-- The quarters of the search and the quarters of a unit of `2 ^ -1074`. -/
theorem quarters_eq : (4 * 10 ^ finest : ℚ) = 4 * 2 ^ finest * decimalUnit := by
  rw [decimalUnit, Nat.cast_pow, mul_assoc, Nat.cast_ofNat, ← mul_pow]
  norm_num

/-- The interval in the quarters of the search. -/
theorem roundsTo_iff_catches {n : Nat} (same : x * (4 * 10 ^ finest) = n) :
    roundsTo m n = true ↔ m.Catches x := by
  rw [quarters_eq] at same
  rw [roundsTo_iff, catches_iff_of_scaled (Nat.cast_pos.mpr decimalUnit_pos) same, gapBelow_eq,
    gapAbove_eq, quarters]
  norm_cast

/-- What is between two numbers in the interval is in it. -/
theorem Catches.of_between (left : m.Catches x) (right : m.Catches z) (above : x ≤ y)
    (below : y ≤ z) : m.Catches y where
  lower := le_trans left.lower (by linarith)
  upper := le_trans below right.upper
  inside := by
    obtain even | leftIn := left.inside
    · exact Or.inl even
    · obtain even | rightIn := right.inside
      · exact Or.inl even
      · exact Or.inr ⟨by linarith, by linarith⟩

/-! ### Units of the least scale -/

/-- The least positive magnitude. -/
def unit : ℚ := 1 / 2 ^ finest

theorem value_eq (m : Magnitude) : m.value = m.mantissa * 2 ^ m.scale * unit := by
  rw [value, count, unit]
  push_cast
  ring

theorem above_eq (m : Magnitude) : m.above = 2 ^ m.scale * unit / 2 := by
  rw [above, reachAbove, unit]
  push_cast
  field_simp
  norm_num

theorem below_le (m : Magnitude) : m.below ≤ 2 ^ m.scale * unit / 2 := by
  have le : (m.reachBelow : ℚ) ≤ 2 * 2 ^ m.scale := mod_cast m.reachBelow_le
  rw [below, unit, div_le_iff₀ (by positivity)]
  field_simp
  linarith

theorem unit_pos : 0 < unit := by
  rw [unit]
  positivity

/-- A number in the interval is at least half the magnitude. -/
theorem Catches.pos (catches : m.Catches x) (nonzero : m.mantissa ≠ 0) : 0 < x := by
  have least : (1 : ℚ) ≤ m.mantissa := mod_cast Nat.pos_of_ne_zero nonzero
  have step : 0 < 2 ^ m.scale * unit := mul_pos (by positivity) unit_pos
  have value := m.value_eq
  have product := mul_le_mul_of_nonneg_right least step.le
  have lower := catches.lower
  have below := m.below_le
  rw [mul_assoc] at value
  linarith

theorem unit_mul : unit * 10 ^ finest = decimalUnit := by
  have quarters := quarters_eq
  have power : (2 : ℚ) ^ finest ≠ 0 := by positivity
  rw [unit, one_div_mul_eq_div, div_eq_iff power]
  linarith

/-- The power of ten above the least magnitude is between two and two and a tenth of it. -/
theorem ten_zpow_bounds : 2 * unit < 10 ^ (-323 : ℤ) ∧ 10 * 10 ^ (-323 : ℤ) < 21 * unit := by
  have scale : (0 : ℚ) < 10 ^ finest := by positivity
  obtain ⟨power, isPower⟩ : ∃ power, power = 10 ^ 751 := ⟨_, rfl⟩
  have scaled : (10 : ℚ) ^ (-323 : ℤ) * 10 ^ finest = power := by
    have sum : (-323 : ℤ) + finest = (751 : Nat) := rfl
    rw [← zpow_natCast, ← zpow_add₀ (by norm_num), sum, zpow_natCast, isPower, Nat.cast_pow,
      Nat.cast_ofNat]
  have lower : 2 * decimalUnit < power := by
    rw [isPower]
    decide +kernel
  have upper : 10 * power < 21 * decimalUnit := by
    rw [isPower]
    decide +kernel
  constructor
  · refine lt_of_mul_lt_mul_right ?_ scale.le
    rw [mul_assoc, unit_mul, scaled]
    exact_mod_cast lower
  · refine lt_of_mul_lt_mul_right ?_ scale.le
    rw [mul_assoc, mul_assoc, unit_mul, scaled]
    exact_mod_cast upper

/-- An interval that goes a twentieth beyond the magnitude belongs to a few units. -/
theorem mantissa_lt_ten {t : ℚ} (below : 20 * m.value ≤ 19 * t) (within : t ≤ m.value + m.above) :
    m.mantissa < 10 := by
  by_contra many
  have step : 0 < 2 ^ m.scale * unit := mul_pos (by positivity) unit_pos
  have many : (10 : ℚ) ≤ m.mantissa := mod_cast Nat.not_lt.mp many
  have product := mul_le_mul_of_nonneg_right many step.le
  have value := m.value_eq
  rw [mul_assoc] at value
  rw [above_eq] at within
  linarith

/-- No such interval ends behind a power of ten. -/
theorem lt_of_twentieth {e : ℤ} (nonzero : m.mantissa ≠ 0) (below : 20 * m.value ≤ 19 * 10 ^ e) :
    m.value + m.above < 10 ^ e := by
  by_contra within
  have within := not_lt.mp within
  have few := mantissa_lt_ten below within
  have least : m.scale = 0 := m.canonical.2.2.resolve_right (by omega)
  have value := m.value_eq
  rw [least, pow_zero, mul_one] at value
  rw [above_eq, least, pow_zero, one_mul] at within
  have positive := unit_pos
  have one : (1 : ℚ) ≤ m.mantissa := mod_cast Nat.pos_of_ne_zero nonzero
  have product := mul_le_mul_of_nonneg_right one positive.le
  obtain ⟨two, more⟩ := ten_zpow_bounds
  -- the power is between one and ten units, which leaves one power
  have ten : (1 : ℚ) < 10 := by norm_num
  obtain rfl : e = -323 := by
    have high : e < -323 + 1 := by
      rw [← zpow_lt_zpow_iff_right₀ ten, zpow_add_one₀ (by norm_num)]
      linarith
    have low : -323 < e + 1 := by
      rw [← zpow_lt_zpow_iff_right₀ ten, zpow_add_one₀ (by norm_num)]
      linarith
    omega
  obtain one | more : m.mantissa = 1 ∨ 2 ≤ m.mantissa := by omega
  · -- one and a half units do not reach it
    rw [one, Nat.cast_one, one_mul] at value
    linarith
  · -- two units are more than nineteen twentieths of it
    have more : (2 : ℚ) ≤ m.mantissa := mod_cast more
    have product := mul_le_mul_of_nonneg_right more positive.le
    linarith

/-- One of a coarser unit is nearer than nine of a finer one, if it is in the interval. -/
theorem one_digit_nearer {e : ℤ} (nonzero : m.mantissa ≠ 0) (finer : x ≤ 9 * 10 ^ (e - 1))
    (catches : m.Catches (10 ^ e)) : |10 ^ e - m.value| < |x - m.value| := by
  have ten : (10 : ℚ) ^ e = 10 * 10 ^ (e - 1) := by
    rw [← zpow_one_add₀ (by norm_num)]
    congr 1
    ring
  have pos : (0 : ℚ) < 10 ^ (e - 1) := by positivity
  have half : 19 * 10 ^ e < 20 * m.value := by
    by_contra below
    exact absurd catches.upper (not_le.mpr (lt_of_twentieth nonzero (not_lt.mp below)))
  rw [abs_of_neg (show x - m.value < 0 by linarith), abs_lt]
  constructor <;> linarith

end Magnitude

namespace Shortest

variable {m : Magnitude} {d c : Decimal} {step q : Nat}

/-! ### The nearest on a grid -/

/-- How far two natural numbers are apart. -/
def gap (a b : Nat) : Nat := (a - b) + (b - a)

theorem cast_gap (a b : Nat) : (gap a b : ℚ) = |(a : ℚ) - b| := by
  obtain le | le := Nat.le_total a b
  · rw [gap, Nat.sub_eq_zero_of_le le, Nat.zero_add, Nat.cast_sub le, abs_sub_comm,
      abs_of_nonneg (sub_nonneg.mpr (Nat.cast_le.mpr le))]
  · rw [gap, Nat.sub_eq_zero_of_le le, Nat.add_zero, Nat.cast_sub le,
      abs_of_nonneg (sub_nonneg.mpr (Nat.cast_le.mpr le))]

/-- The multiple of the step is nearer to the magnitude than all others in the interval, or as near
and even against odd. -/
def Preferred (m : Magnitude) (step q : Nat) : Prop :=
  ∀ p, roundsTo m (p * step) = true →
    gap (q * step) (quarters m) < gap (p * step) (quarters m) ∨
      gap (q * step) (quarters m) = gap (p * step) (quarters m) ∧
        (p = q ∨ q % 2 = 0 ∧ p % 2 = 1)

/-- When the lower neighbour is taken, and when the upper one. -/
theorem onGrid?_even (found : onGrid? .even m step = some q) :
    (q = quarters m / step ∧ (roundsTo m ((quarters m / step + 1) * step) = false ∨
        2 * (quarters m % step) < step ∨ 2 * (quarters m % step) = step ∧ q % 2 = 0)) ∨
      (q = quarters m / step + 1 ∧ (roundsTo m (quarters m / step * step) = false ∨
        step < 2 * (quarters m % step) ∨ 2 * (quarters m % step) = step ∧ q % 2 = 0)) := by
  unfold onGrid? at found
  dsimp only at found
  split at found
  · cases found
  · next _ above =>
    cases found
    exact Or.inl ⟨rfl, Or.inl above⟩
  · next below _ =>
    cases found
    exact Or.inr ⟨rfl, Or.inl below⟩
  · split at found
    · next less =>
      cases found
      exact Or.inl ⟨rfl, Or.inr (Or.inl less)⟩
    · split at found
      · next more =>
        cases found
        exact Or.inr ⟨rfl, Or.inr (Or.inl more)⟩
      · cases found
        simp only [TieRule.choose]
        omega

theorem preferred_of_onGrid? (pos : 0 < step) (found : onGrid? .even m step = some q) :
    Preferred m step q := by
  intro p rounds
  have split := Nat.div_add_mod' (quarters m) step
  have small := Nat.mod_lt (quarters m) pos
  have above : p ≤ quarters m / step ∨ roundsTo m ((quarters m / step + 1) * step) = true := by
    refine or_iff_not_imp_left.mpr fun gt => roundsTo_of_between rounds (Or.inr ⟨?_, ?_⟩)
    · rw [Nat.succ_mul]
      omega
    · exact Nat.mul_le_mul_right step (Nat.not_le.mp gt)
  have below : quarters m / step < p ∨ roundsTo m (quarters m / step * step) = true := by
    refine or_iff_not_imp_left.mpr fun le => roundsTo_of_between rounds (Or.inl ⟨?_, ?_⟩)
    · exact Nat.mul_le_mul_right step (Nat.not_lt.mp le)
    · exact Nat.div_mul_le_self (quarters m) step
  have taken := onGrid?_even found
  unfold gap
  generalize quarters m / step = a at *
  generalize quarters m % step = r at *
  have next : (a + 1) * step = a * step + step := Nat.succ_mul a step
  -- a number on the grid is one of the neighbours, or a step or more beyond one
  obtain less | rfl | rfl | more : p + 1 ≤ a ∨ p = a ∨ p = a + 1 ∨ a + 2 ≤ p := by omega
  · have far := Nat.mul_le_mul_right step less
    rw [Nat.succ_mul] at far
    obtain ⟨rfl, or⟩ | ⟨rfl, or⟩ := taken
    · omega
    · have upper := or.resolve_left (by rw [below.resolve_left (by omega)]; decide)
      omega
  · obtain ⟨rfl, or⟩ | ⟨rfl, or⟩ := taken
    · exact Or.inr ⟨rfl, Or.inl rfl⟩
    · have upper := or.resolve_left (by rw [below.resolve_left (by omega)]; decide)
      omega
  · obtain ⟨rfl, or⟩ | ⟨rfl, or⟩ := taken
    · have lower := or.resolve_left (by rw [above.resolve_left (by omega)]; decide)
      omega
    · exact Or.inr ⟨rfl, Or.inl rfl⟩
  · have far := Nat.mul_le_mul_right step more
    rw [Nat.add_mul] at far
    obtain ⟨rfl, or⟩ | ⟨rfl, or⟩ := taken
    · have lower := or.resolve_left (by rw [above.resolve_left (by omega)]; decide)
      omega
    · omega

/-- **The search gives the preferred number of its grid.** -/
theorem search_preferred (m : Magnitude) (n : Nat) :
    ∃ k : Nat, (search .even m n).exponent = k - finest ∧
      Preferred m (4 * 10 ^ k) (search .even m n).digits := by
  induction n with
  | zero =>
    refine ⟨0, by simp [search], fun p _ => ?_⟩
    -- the magnitude itself is on the finest grid
    have whole : (search .even m 0).digits * (4 * 10 ^ 0) = quarters m := by
      show quarters m / 4 * (4 * 10 ^ 0) = quarters m
      rw [quarters]
      omega
    unfold gap
    omega
  | succ n ih =>
    rw [search]
    cases grid : onGrid? .even m (4 * 10 ^ (n + 1)) with
    | some q => exact ⟨n + 1, rfl, preferred_of_onGrid? (step_pos _) grid⟩
    | none => exact ih

/-! ### The coarsest decimal in the interval -/

/-- The number that the decimal denotes. -/
def Decimal.value (d : Decimal) : ℚ := d.digits * 10 ^ d.exponent

/-- How many digits the decimal is written with. -/
def Decimal.length (d : Decimal) : Nat := (Numeral.digitChars d.digits).length

/-- The decimal is in the interval of the magnitude, nothing on a coarser grid is, and on its own
grid it is to be preferred. -/
structure CoarsestHit (m : Magnitude) (d : Decimal) : Prop where
  catches : m.Catches d.value
  coarser : ∀ (j : ℤ) (p : Nat), d.exponent < j → ¬m.Catches (p * 10 ^ j)
  preferred : ∀ p : Nat, m.Catches (p * 10 ^ d.exponent) →
    |d.value - m.value| < |p * 10 ^ d.exponent - m.value| ∨
      |d.value - m.value| = |p * 10 ^ d.exponent - m.value| ∧
        (p = d.digits ∨ d.digits % 2 = 0 ∧ p % 2 = 1)

/-- A number on a grid of the search, in quarters. -/
theorem grid_mul (p k : Nat) :
    (p * 10 ^ ((k : ℤ) - finest) : ℚ) * (4 * 10 ^ finest) = (p * (4 * 10 ^ k) : Nat) := by
  rw [zpow_sub₀ (by norm_num), zpow_natCast, zpow_natCast]
  push_cast
  field_simp

theorem roundsTo_grid_iff {p k : Nat} :
    roundsTo m (p * (4 * 10 ^ k)) = true ↔ m.Catches (p * 10 ^ ((k : ℤ) - finest)) :=
  Magnitude.roundsTo_iff_catches (grid_mul p k)

theorem gap_grid (p k : Nat) : (gap (p * (4 * 10 ^ k)) (quarters m) : ℚ) =
    |p * 10 ^ ((k : ℤ) - finest) - m.value| * (4 * 10 ^ finest) := by
  have unit : (0 : ℚ) < 4 * 10 ^ finest := by positivity
  have value : m.value * (4 * 10 ^ finest) = quarters m := by
    rw [Magnitude.quarters_eq, Magnitude.value_mul, quarters]
    norm_cast
  rw [cast_gap, ← grid_mul, ← value, ← sub_mul, abs_mul, abs_of_pos unit]

theorem coarsestHit_shortest (nonzero : m.mantissa ≠ 0) : CoarsestHit m (shortest .even m) := by
  obtain ⟨k, hit⟩ := shortest_spec .even nonzero
  obtain ⟨k', exponent, preferred⟩ := search_preferred m (coarsest m)
  rw [← shortest] at exponent preferred
  obtain rfl : k' = k := by
    have same := (hit 0).exponent
    omega
  constructor
  · rw [Decimal.value, exponent]
    exact roundsTo_grid_iff.mp (hit 0).rounds
  · intro j p coarser catches
    obtain ⟨n, rfl⟩ : ∃ n : Nat, j = n - finest := ⟨(j + finest).toNat, by omega⟩
    rw [← roundsTo_grid_iff, (hit n).coarser n p (by omega) (Nat.le_refl n)] at catches
    cases catches
  · intro p catches
    rw [exponent] at catches
    have unit : (0 : ℚ) < 4 * 10 ^ finest := by positivity
    have or := preferred p (roundsTo_grid_iff.mpr catches)
    rw [← Nat.cast_lt (α := ℚ), ← Nat.cast_inj (R := ℚ), gap_grid, gap_grid,
      mul_lt_mul_iff_left₀ unit, mul_left_inj' unit.ne'] at or
    rwa [Decimal.value, exponent]

/-! ### Against another decimal -/

theorem lt_ten_pow_length (n : Nat) : n < 10 ^ (Numeral.digitChars n).length :=
  (Nat.length_toDigits_le_iff (by decide) (List.length_pos_iff.mpr Nat.toDigits_ne_nil)).mp
    (Nat.le_refl _)

theorem ten_pow_length_le {n : Nat} (pos : 0 < n) :
    10 ^ ((Numeral.digitChars n).length - 1) ≤ n := by
  by_contra less
  obtain one | more : (Numeral.digitChars n).length - 1 = 0 ∨
      0 < (Numeral.digitChars n).length - 1 := by omega
  · rw [one] at less
    omega
  · have shorter := (Nat.length_toDigits_le_iff (by decide) more).mpr (Nat.not_le.mp less)
    rw [← Numeral.digitChars] at shorter
    omega

theorem Decimal.length_pos (d : Decimal) : 0 < d.length :=
  List.length_pos_iff.mpr Nat.toDigits_ne_nil

theorem Decimal.value_lt (d : Decimal) : d.value < 10 ^ (d.length + d.exponent : ℤ) := by
  have power : (0 : ℚ) < 10 ^ d.exponent := by positivity
  rw [Decimal.value, zpow_add₀ (by norm_num), zpow_natCast]
  exact mul_lt_mul_of_pos_right (mod_cast lt_ten_pow_length d.digits) power

theorem Decimal.le_value {d : Decimal} (pos : 0 < d.value) :
    (10 : ℚ) ^ (d.length - 1 + d.exponent : ℤ) ≤ d.value := by
  have power : (0 : ℚ) < 10 ^ d.exponent := by positivity
  have digits : 0 < d.digits := Nat.pos_of_ne_zero fun zero => by
    rw [Decimal.value, zero, Nat.cast_zero, zero_mul] at pos
    exact lt_irrefl 0 pos
  have first : (d.length : ℤ) - 1 = (d.length - 1 : Nat) := by
    have := d.length_pos
    omega
  rw [Decimal.value, first, zpow_add₀ (by norm_num), zpow_natCast]
  exact mul_le_mul_of_nonneg_right (mod_cast ten_pow_length_le digits) power.le

namespace CoarsestHit

/-- A number in the interval with fewer places before the point is below the power of ten at the
first digit, and that power is on the grid. -/
theorem length_eq_one (hit : CoarsestHit m d) (nonzero : m.mantissa ≠ 0)
    (catches : m.Catches c.value) (fewer : c.length + c.exponent < d.length + d.exponent) :
    d.length = 1 ∧ m.Catches (10 ^ d.exponent) := by
  have first : c.value ≤ 10 ^ (d.length - 1 + d.exponent : ℤ) :=
    c.value_lt.le.trans (zpow_le_zpow_right₀ (by norm_num) (by omega))
  have inside := catches.of_between hit.catches first
    (Decimal.le_value (hit.catches.pos nonzero))
  have one : d.length = 1 := by
    by_contra more
    refine hit.coarser (d.length - 1 + d.exponent) 1 ?_ (by rwa [Nat.cast_one, one_mul])
    have := d.length_pos
    omega
  refine ⟨one, ?_⟩
  rwa [one, Nat.cast_one, sub_self, zero_add] at inside

/-- **Every other decimal in the interval is longer, or as long and farther, or as far and odd.** -/
theorem beats (hit : CoarsestHit m d) (nonzero : m.mantissa ≠ 0) (catches : m.Catches c.value) :
    d.length < c.length ∨ d.length = c.length ∧
      (|d.value - m.value| < |c.value - m.value| ∨ |d.value - m.value| = |c.value - m.value| ∧
        (c = d ∨ d.digits % 2 = 0 ∧ c.digits % 2 = 1)) := by
  refine or_iff_not_imp_left.mpr fun notLonger => ?_
  have length := c.length_pos
  obtain finer | same | coarser := Int.lt_trichotomy c.exponent d.exponent
  · -- one digit against one digit
    obtain ⟨one, power⟩ := hit.length_eq_one nonzero catches (by omega)
    have nine : c.value ≤ 9 * 10 ^ (d.exponent - 1) := by
      have digits := lt_ten_pow_length c.digits
      have single : (Numeral.digitChars c.digits).length = 1 := by
        have : c.length = 1 := by omega
        exact this
      rw [single] at digits
      have digits : (c.digits : ℚ) ≤ 9 := mod_cast Nat.le_of_lt_succ digits
      exact mul_le_mul digits (zpow_le_zpow_right₀ (by norm_num) (by omega)) (by positivity)
        (by norm_num)
    have nearer := Magnitude.one_digit_nearer nonzero nine power
    have grid := hit.preferred 1 (by rwa [Nat.cast_one, one_mul])
    rw [Nat.cast_one, one_mul] at grid
    refine ⟨by omega, Or.inl (lt_of_le_of_lt ?_ nearer)⟩
    exact grid.elim le_of_lt fun tie => tie.1.le
  · -- a number on the same grid
    have equal : d.length = c.length := by
      by_contra fewer
      have one := (hit.length_eq_one nonzero catches (by omega)).1
      omega
    have grid := hit.preferred c.digits (by rwa [← same])
    rw [← same, ← Decimal.value] at grid
    refine ⟨equal, grid.imp_right fun ⟨tie, or⟩ => ⟨tie, or.imp_left fun digits => ?_⟩⟩
    cases c
    cases d
    congr
  · exact absurd catches (hit.coarser c.exponent c.digits coarser)

end CoarsestHit

/-! ### The definition and the search -/

/-- Reading the decimal gives the magnitude. -/
def Decimal.ReadsAs (d : Decimal) (m : Magnitude) : Prop :=
  Double.ofDecimal false d.digits d.exponent = .finite false m

/-- The decimal reads as the magnitude, with the fewest digits; of those it is the nearest, and even
if another is as near. -/
structure IsShortest (m : Magnitude) (d : Decimal) : Prop where
  reads : d.ReadsAs m
  length_le : ∀ c : Decimal, c.ReadsAs m → d.length ≤ c.length
  distance_le : ∀ c : Decimal, c.ReadsAs m → c.length = d.length →
    |d.value - m.value| ≤ |c.value - m.value|
  even_of_tie : ∀ c : Decimal, c.ReadsAs m → c.length = d.length → c ≠ d →
    |c.value - m.value| = |d.value - m.value| → d.digits % 2 = 0

/-- A decimal that reads as the magnitude is in its interval. -/
theorem Decimal.ReadsAs.catches (reads : d.ReadsAs m) (nonzero : m.mantissa ≠ 0) :
    m.Catches d.value := by
  have draws : ∀ {num den : Nat}, 0 < den →
      Double.ofUnits false num den = .finite false m → m.Draws num den := by
    intro num den pos found
    unfold Double.ofUnits at found
    split at found
    · next p nearest =>
      cases found
      exact (Magnitude.nearest?_eq_some_iff pos).mp nearest
    · cases found
  unfold Decimal.ReadsAs Double.ofDecimal at reads
  unfold Decimal.value
  generalize d.digits = digits at *
  generalize d.exponent = exponent at *
  split at reads
  · cases reads
    exact absurd rfl nonzero
  · split at reads
    · cases reads
    · split at reads
      · cases reads
        exact absurd rfl nonzero
      · split at reads
        · next e _ _ =>
          refine Magnitude.catches_of_draws Nat.one_pos (draws Nat.one_pos reads) ?_
          rw [unitsPerOne_eq, Int.ofNat_eq_natCast, zpow_natCast]
          push_cast
          ring
        · next e _ _ =>
          have pos : 0 < 10 ^ (e + 1) := Nat.pow_pos (by decide)
          refine Magnitude.catches_of_draws pos (draws pos reads) ?_
          rw [unitsPerOne_eq, zpow_negSucc]
          push_cast
          field_simp

theorem readsAs_shortest (nonzero : m.mantissa ≠ 0) : (shortest .even m).ReadsAs m := by
  obtain ⟨k, hit⟩ := shortest_spec .even nonzero
  rw [Decimal.ReadsAs, (hit 0).exponent]
  exact Double.ofDecimal_of_roundsTo false nonzero (hit 0).rounds

/-- **There is one shortest decimal, and the search finds it.** -/
theorem isShortest_iff (nonzero : m.mantissa ≠ 0) : IsShortest m d ↔ d = shortest .even m := by
  have beats : ∀ c : Decimal, c.ReadsAs m → _ := fun c reads =>
    (coarsestHit_shortest nonzero).beats nonzero (reads.catches nonzero)
  have found := readsAs_shortest nonzero
  generalize shortest .even m = s at *
  constructor
  · intro isShortest
    have fewest := isShortest.length_le s found
    obtain longer | ⟨same, nearer | ⟨tie, rfl | ⟨-, odd⟩⟩⟩ := beats d isShortest.reads
    · omega
    · exact absurd (isShortest.distance_le s found same) (not_le.mpr nearer)
    · rfl
    · by_contra other
      have even := isShortest.even_of_tie s found same (Ne.symm other) tie
      omega
  · rintro rfl
    refine ⟨found, fun c reads => ?_, fun c reads same => ?_, fun c reads same other tie => ?_⟩
    · exact (beats c reads).elim le_of_lt fun as => as.1.le
    · obtain longer | ⟨-, nearer | ⟨tie, -⟩⟩ := beats c reads
      · omega
      · exact nearer.le
      · exact tie.le
    · obtain longer | ⟨-, nearer | ⟨-, rfl | ⟨even, -⟩⟩⟩ := beats c reads
      · omega
      · exact absurd tie nearer.ne'
      · exact absurd rfl other
      · exact even

end Shortest

end HostObjects
