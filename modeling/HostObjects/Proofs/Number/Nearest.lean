import HostObjects.Proofs.Number.Rounding
import Mathlib.Tactic.WLOG
import Mathlib.Tactic.ByContra

/-!
# The nearest magnitude

Rounding a fraction gives a magnitude exactly when the fraction lies in the interval of the
magnitude (`nearest?_eq_some_iff`), and none exactly when the fraction is half a unit or
more beyond the greatest magnitude (`nearest?_eq_none_iff`).  Every fraction is rounded at
the scale at which it has 53 bits.  Half a unit of that scale is the whole error, and where
the mantissa comes out with 54 bits it is a power of two.

The interval is what the word nearest means.  `IsNearest` says it by distances, to all
magnitudes: none is nearer, and if another is as near the mantissa is even.  A magnitude
is the nearest to every number of units in its interval (`isNearest_of_draws`), because its
two neighbours are at the double of the distance at which the interval ends.
-/

namespace HostObjects

/-! ### The nearest integer -/

/-- The rounded integer is at most a half away, and even if it is a half away. -/
theorem roundHalfEven_spec (num : Nat) {den : Nat} (pos : 0 < den) :
    2 * (roundHalfEven num den * den) ≤ 2 * num + den ∧
      2 * num ≤ 2 * (roundHalfEven num den * den) + den ∧
      (roundHalfEven num den % 2 = 0 ∨
        2 * (roundHalfEven num den * den) < 2 * num + den ∧
          2 * num < 2 * (roundHalfEven num den * den) + den) := by
  have split := Nat.div_add_mod' num den
  have small := Nat.mod_lt num pos
  have next : (num / den + 1) * den = num / den * den + den := Nat.succ_mul _ _
  unfold roundHalfEven
  generalize num / den = q at *
  generalize num % den = r at *
  dsimp only
  split
  · omega
  · split
    · omega
    · -- a tie: the quotient or the integer after it, whichever is even
      obtain even | odd := Nat.mod_two_eq_zero_or_one q
      · rw [even, Nat.add_zero]
        omega
      · rw [odd]
        omega

namespace Magnitude

/-! ### The scale of a fraction -/

theorem lt_two_pow_excessBits (n : Nat) : n < 2 ^ (excessBits n + 53) := by
  refine Nat.lt_of_lt_of_le Nat.lt_log2_self (Nat.pow_le_pow_right Nat.two_pos ?_)
  rw [excessBits]
  omega

theorem two_pow_excessBits_le (n : Nat) : excessBits n = 0 ∨ 2 ^ (excessBits n + 52) ≤ n := by
  by_cases small : excessBits n = 0
  · exact Or.inl small
  · have log : excessBits n + 52 = n.log2 := by
      rw [excessBits] at *
      omega
    refine Or.inr (log ▸ Nat.log2_self_le ?_)
    rintro rfl
    exact small (by rw [excessBits, Nat.log2_zero])

/-- A fraction, the scale at which it is rounded, and the mantissa that it is rounded to. -/
structure Rounded (num den scale mantissa : Nat) : Prop where
  /-- The fraction has at most 53 bits at this scale. -/
  below : num < 2 ^ 53 * (2 ^ scale * den)
  /-- It has as many, unless the scale is the least. -/
  above : scale = 0 ∨ 2 ^ 52 * (2 ^ scale * den) ≤ num
  lower : 2 * (mantissa * (2 ^ scale * den)) ≤ 2 * num + 2 ^ scale * den
  upper : 2 * num ≤ 2 * (mantissa * (2 ^ scale * den)) + 2 ^ scale * den
  inside : mantissa % 2 = 0 ∨
    2 * (mantissa * (2 ^ scale * den)) < 2 * num + 2 ^ scale * den ∧
      2 * num < 2 * (mantissa * (2 ^ scale * den)) + 2 ^ scale * den

variable {m : Magnitude} {num den s q : Nat}

theorem exists_rounded (num : Nat) (pos : 0 < den) : ∃ s q, Rounded num den s q ∧
    nearest? num den = if q < 2 ^ 53 then ofParts? q s else ofParts? (q / 2) (s + 1) := by
  have below := lt_two_pow_excessBits (num / den)
  have above := two_pow_excessBits_le (num / den)
  rw [Nat.pow_add, Nat.div_lt_iff_lt_mul pos] at below
  rw [Nat.pow_add, Nat.le_div_iff_mul_le pos] at above
  generalize scale : excessBits (num / den) = s at *
  have unit : den * 2 ^ s = 2 ^ s * den := Nat.mul_comm _ _
  obtain ⟨lower, upper, inside⟩ :=
    roundHalfEven_spec num (unit ▸ Nat.mul_pos pos (Nat.two_pow_pos s))
  refine ⟨s, roundHalfEven num (den * 2 ^ s), ⟨?_, ?_, ?_, ?_, ?_⟩, nearest?_eq scale rfl⟩
  · rwa [← Nat.mul_assoc, Nat.mul_comm (2 ^ 53)]
  · rwa [← Nat.mul_assoc, Nat.mul_comm (2 ^ 52)]
  · rwa [unit] at *
  · rwa [unit] at *
  · rwa [unit] at *

namespace Rounded

theorem unit_pos (pos : 0 < den) : 0 < 2 ^ s * den := Nat.mul_pos (Nat.two_pow_pos s) pos

/-- A mantissa with 54 bits is a power of two. -/
theorem mantissa_le (rounded : Rounded num den s q) (pos : 0 < den) : q ≤ 2 ^ 53 := by
  refine Nat.not_lt.mp fun more => ?_
  have far := Nat.mul_le_mul_right (2 ^ s * den) (Nat.succ_le_of_lt more)
  have := unit_pos (s := s) pos
  have := rounded.below
  have := rounded.lower
  rw [Nat.succ_mul] at far
  omega

theorem le_mantissa (rounded : Rounded num den s q) (pos : 0 < den) : s = 0 ∨ 2 ^ 52 ≤ q := by
  obtain least | above := rounded.above
  · exact Or.inl least
  · refine Or.inr (Nat.not_lt.mp fun less => ?_)
    have far := Nat.mul_le_mul_right (2 ^ s * den) (Nat.succ_le_of_lt less)
    have := unit_pos (s := s) pos
    have := rounded.upper
    rw [Nat.succ_mul] at far
    omega

/-- The magnitude of the rounded mantissa draws the fraction. -/
theorem draws (rounded : Rounded num den s q) (pos : 0 < den) (mantissa : m.mantissa = q)
    (scale : m.scale = s) : m.Draws num den := by
  obtain ⟨below, above, lower, upper, inside⟩ := rounded
  subst mantissa scale
  have count : m.count * den = m.mantissa * (2 ^ m.scale * den) := Nat.mul_assoc _ _ _
  have reachAbove : m.reachAbove * den = 2 * (2 ^ m.scale * den) := Nat.mul_assoc _ _ _
  -- only the least mantissa reaches less far below itself, and it is not above the fraction
  have reach : 4 * (m.mantissa * (2 ^ m.scale * den)) ≤ 4 * num ∨
      m.reachBelow * den = 2 * (2 ^ m.scale * den) := by
    unfold reachBelow
    split
    · next least =>
      rw [least.1]
      exact Or.inl (Nat.mul_le_mul_left 4 (above.resolve_left (Nat.ne_of_gt least.2)))
    · exact Or.inr (Nat.mul_assoc _ _ _)
  have reachPos := Nat.mul_pos m.reachBelow_pos pos
  constructor
  · omega
  · omega
  · omega

/-- A mantissa with 54 bits is the least mantissa of the next scale. -/
theorem draws_of_carry (rounded : Rounded num den s (2 ^ 53)) (mantissa : m.mantissa = 2 ^ 52)
    (scale : m.scale = s + 1) : m.Draws num den := by
  obtain ⟨below, -, lower, upper, -⟩ := rounded
  have double : 2 ^ m.scale * den = 2 * (2 ^ s * den) := by
    rw [scale, Nat.pow_succ, Nat.mul_comm _ 2, Nat.mul_assoc]
  have count : m.count * den = 2 ^ 53 * (2 ^ s * den) := by
    rw [Magnitude.count, Nat.mul_assoc, double, mantissa]
    omega
  have reachAbove : m.reachAbove * den = 2 * (2 ^ m.scale * den) := Nat.mul_assoc _ _ _
  have reachBelow : m.reachBelow = 2 ^ m.scale :=
    if_pos ⟨mantissa, scale ▸ Nat.succ_pos s⟩
  constructor
  · rw [reachBelow]
    omega
  · omega
  · exact Or.inl (by rw [mantissa]; decide)

end Rounded

/-! ### Rounding a fraction -/

/-- The least number of units that is rounded to infinity: half a unit of the greatest scale beyond
the greatest magnitude. -/
def overflow : Nat := (2 ^ 54 - 1) * 2 ^ 2044

/-- A fraction is beyond all magnitudes if it is at a scale beyond the greatest. -/
theorem overflow_le_of_scale {e : Nat} (beyond : 2044 + e ≤ s)
    (above : (2 ^ 54 - 1) * (2 ^ s * den) ≤ 2 ^ e * num) : overflow * den ≤ num := by
  have power : 2 ^ 2044 * 2 ^ e ≤ 2 ^ s := by
    rw [← Nat.pow_add]
    exact Nat.pow_le_pow_right Nat.two_pos beyond
  have product := Nat.mul_le_mul_left (2 ^ 54 - 1) (Nat.mul_le_mul_right den power)
  have beyond := Nat.le_trans product above
  rw [overflow]
  generalize 2 ^ 2044 = u at *
  refine Nat.le_of_mul_le_mul_left (Nat.le_trans (Nat.le_of_eq ?_) beyond) (Nat.two_pow_pos e)
  generalize 2 ^ 54 - 1 = v
  ac_rfl

theorem ofParts?_cases (q s : Nat) :
    (∃ m : Magnitude, ofParts? q s = some m ∧ m.mantissa = q ∧ m.scale = s) ∨
      ofParts? q s = none ∧ ¬IsCanonical q s := by
  unfold ofParts?
  split
  · exact Or.inl ⟨_, rfl, rfl, rfl⟩
  · next other => exact Or.inr ⟨rfl, other⟩

/-- **A fraction lies in the interval of the magnitude it is rounded to**, or it is beyond all of
them. -/
theorem nearest?_cases (num : Nat) (pos : 0 < den) :
    (∃ m, nearest? num den = some m ∧ m.Draws num den) ∨
      nearest? num den = none ∧ overflow * den ≤ num := by
  obtain ⟨s, q, rounded, parts⟩ := exists_rounded num pos
  rw [parts]
  split
  · next fits =>
    obtain ⟨m, found, mantissa, scale⟩ | ⟨missing, other⟩ := ofParts?_cases q s
    · exact Or.inl ⟨m, found, rounded.draws pos mantissa scale⟩
    · refine Or.inr ⟨missing, ?_⟩
      have large : 2045 < s := by
        exact Nat.not_le.mp fun le => other ⟨fits, le, rounded.le_mantissa pos⟩
      have above := rounded.above.resolve_left (by omega)
      exact overflow_le_of_scale (s := s) (e := 2) (by omega) (by omega)
  · next carry =>
    obtain rfl : q = 2 ^ 53 := Nat.le_antisymm (rounded.mantissa_le pos) (Nat.not_lt.mp carry)
    obtain ⟨m, found, mantissa, scale⟩ | ⟨missing, other⟩ := ofParts?_cases (2 ^ 53 / 2) (s + 1)
    · exact Or.inl ⟨m, found, rounded.draws_of_carry mantissa scale⟩
    · refine Or.inr ⟨missing, ?_⟩
      have large : 2045 ≤ s := by
        exact Nat.not_lt.mp fun lt => other ⟨by decide, lt, Or.inr (by decide)⟩
      have lower := rounded.lower
      exact overflow_le_of_scale (s := s) (e := 1) (by omega) (by omega)

/-- **Rounding gives a magnitude exactly when the fraction is in its interval.** -/
theorem nearest?_eq_some_iff (pos : 0 < den) :
    nearest? num den = some m ↔ m.Draws num den := by
  refine ⟨fun found => ?_, nearest?_of_draws pos⟩
  obtain ⟨m', found', draws⟩ | ⟨missing, -⟩ := nearest?_cases num pos
  · rw [found] at found'
    cases found'
    exact draws
  · rw [found] at missing
    cases missing

/-- The interval of the greatest magnitude ends at the overflow, which is outside. -/
theorem Draws.lt_overflow (pos : 0 < den) (draws : m.Draws num den) : num < overflow * den := by
  obtain ⟨-, upper, inside⟩ := draws.half_unit
  have power : ∀ e, m.scale ≤ e + 1 → 2 ^ m.scale ≤ 2 ^ e * 2 := fun e le =>
    Nat.pow_succ 2 e ▸ Nat.pow_le_pow_right Nat.two_pos le
  have unit := Nat.mul_le_mul_right den (power 2044 m.canonical.2.1)
  have pos := Nat.mul_pos (Nat.two_pow_pos m.scale) pos
  have whole : overflow * den = (2 ^ 54 - 1) * (2 ^ 2044 * den) := Nat.mul_assoc _ _ _
  rw [Nat.mul_right_comm] at unit
  rw [whole]
  generalize 2 ^ 2044 * den = v at *
  generalize 2 ^ m.scale * den = u at *
  obtain odd | less : m.mantissa = 2 ^ 53 - 1 ∨ m.mantissa + 2 ≤ 2 ^ 53 := by
    have most := m.canonical.1
    omega
  · have product : m.mantissa * u = (2 ^ 53 - 1) * u := by rw [odd]
    have strict := inside.resolve_left (by rw [odd]; decide)
    omega
  · have product := Nat.mul_le_mul_right u less
    rw [Nat.add_mul] at product
    omega

/-- **Rounding gives no magnitude exactly from the overflow on.** -/
theorem nearest?_eq_none_iff (pos : 0 < den) :
    nearest? num den = none ↔ overflow * den ≤ num := by
  obtain ⟨m, found, draws⟩ | ⟨missing, beyond⟩ := nearest?_cases num pos
  · have within := draws.lt_overflow pos
    rw [found]
    exact ⟨nofun, fun beyond => absurd within (Nat.not_lt.mpr beyond)⟩
  · exact ⟨fun _ => beyond, fun _ => missing⟩

/-! ### Neighbours -/

variable {p : Magnitude}

/-- A magnitude of a lower scale is below all of a higher one. -/
theorem scale_le_of_count_le (le : m.count ≤ p.count) : m.scale ≤ p.scale := by
  refine Nat.not_lt.mp fun finer => ?_
  have least : 2 ^ 52 ≤ m.mantissa := m.canonical.2.2.resolve_left (by omega)
  have unit : 2 ^ p.scale * 2 ≤ 2 ^ m.scale := by
    rw [← Nat.pow_succ]
    exact Nat.pow_le_pow_right Nat.two_pos finer
  have below := Nat.mul_lt_mul_of_pos_right p.canonical.1 (Nat.two_pow_pos p.scale)
  have above := Nat.mul_le_mul_right (2 ^ m.scale) least
  unfold count at le
  omega

theorem eq_of_count_eq (same : m.count = p.count) : m = p := by
  have scale : m.scale = p.scale := Nat.le_antisymm (scale_le_of_count_le (Nat.le_of_eq same))
    (scale_le_of_count_le (Nat.le_of_eq same.symm))
  unfold count at same
  rw [scale] at same
  have mantissa := Nat.eq_of_mul_eq_mul_right (Nat.two_pow_pos p.scale) same
  cases m
  cases p
  congr

/-- The magnitude above is at least a unit of the scale away. -/
theorem count_add_le_of_lt (lt : m.count < p.count) : m.count + 2 ^ m.scale ≤ p.count := by
  obtain ⟨k, scale⟩ := Nat.exists_eq_add_of_le (scale_le_of_count_le (Nat.le_of_lt lt))
  have units : p.count = p.mantissa * 2 ^ k * 2 ^ m.scale := by
    rw [count, scale, Nat.pow_add, Nat.mul_comm (2 ^ m.scale), Nat.mul_assoc]
  rw [units, count] at lt
  rw [units, count, ← Nat.succ_mul]
  exact Nat.mul_le_mul_right _ (Nat.lt_of_mul_lt_mul_right lt)

/-- The magnitude below is at least the double of the reach away. -/
theorem count_le_of_lt (lt : p.count < m.count) :
    4 * p.count + 2 * m.reachBelow ≤ 4 * m.count := by
  obtain same | finer := Nat.eq_or_lt_of_le (scale_le_of_count_le (Nat.le_of_lt lt))
  · have reach := m.reachBelow_le
    have unit := count_add_le_of_lt lt
    rw [same] at unit
    omega
  · have least : 2 ^ 52 ≤ m.mantissa := m.canonical.2.2.resolve_left (by omega)
    obtain ⟨t, next⟩ : ∃ t, m.scale = t + 1 := ⟨m.scale - 1, by omega⟩
    have unit : 2 ^ m.scale = 2 * 2 ^ t := by rw [next, Nat.pow_succ, Nat.mul_comm]
    -- the greatest mantissa of the scale before
    have below : p.count ≤ (2 ^ 53 - 1) * 2 ^ t :=
      Nat.mul_le_mul (Nat.le_of_lt_succ p.canonical.1)
        (Nat.pow_le_pow_right Nat.two_pos (by omega))
    obtain fewest | more : m.mantissa = 2 ^ 52 ∨ 2 ^ 52 + 1 ≤ m.mantissa := by omega
    · have reach : m.reachBelow = 2 ^ m.scale := if_pos ⟨fewest, by omega⟩
      have above : m.count = 2 ^ 52 * 2 ^ m.scale := by rw [count, fewest]
      omega
    · have reach := m.reachBelow_le
      have above : (2 ^ 52 + 1) * 2 ^ m.scale ≤ m.count := Nat.mul_le_mul_right _ more
      omega

/-! ### Distances -/

/-- How far a number of units is from the magnitude. -/
def distance (m : Magnitude) (units : Nat) : Nat := (m.count - units) + (units - m.count)

/-- No magnitude is nearer to the number of units, and if another is as near, the mantissa is
even. -/
structure IsNearest (m : Magnitude) (units : Nat) : Prop where
  distance_le : ∀ p : Magnitude, m.distance units ≤ p.distance units
  even_of_tie : ∀ p : Magnitude, p ≠ m → p.distance units = m.distance units → m.mantissa % 2 = 0

theorem isNearest_of_draws {units : Nat} (draws : m.Draws units 1) : m.IsNearest units := by
  obtain ⟨lower, upper, inside⟩ := draws
  have above : m.reachAbove = 2 * 2 ^ m.scale := rfl
  have unit := Nat.two_pow_pos m.scale
  have below := m.reachBelow_pos
  have apart : ∀ p : Magnitude, p ≠ m →
      m.count + 2 ^ m.scale ≤ p.count ∨ 4 * p.count + 2 * m.reachBelow ≤ 4 * m.count := by
    intro p other
    obtain lt | eq | gt := Nat.lt_trichotomy p.count m.count
    · exact Or.inr (count_le_of_lt lt)
    · exact absurd (eq_of_count_eq eq) other
    · exact Or.inl (count_add_le_of_lt gt)
  simp only [Nat.mul_one] at *
  refine ⟨fun p => ?_, fun p other tie => ?_⟩
  · by_cases same : p = m
    · exact Nat.le_of_eq (congrArg (distance · units) same.symm)
    · have apart := apart p same
      unfold distance
      omega
  · have apart := apart p other
    unfold distance at tie
    omega

/-- The magnitude with the next mantissa is nearer than one with an even mantissa to all that is
beyond half a unit. -/
theorem not_isNearest_of_beyond {units : Nat} (even : m.mantissa % 2 = 0)
    (beyond : 2 * m.count + 2 ^ m.scale < 2 * units) : ¬m.IsNearest units := by
  intro nearest
  obtain ⟨less, fits, normal⟩ := m.canonical
  obtain ⟨p, next⟩ : ∃ p : Magnitude, p.count = m.count + 2 ^ m.scale :=
    ⟨⟨m.mantissa + 1, m.scale, by omega, fits, normal.imp_right Nat.le_succ_of_le⟩,
      Nat.succ_mul _ _⟩
  have unit := Nat.two_pow_pos m.scale
  have le := nearest.distance_le p
  unfold distance at le
  omega

/-- There is one nearest magnitude. -/
theorem IsNearest.unique {units : Nat} (nearest : m.IsNearest units) (other : p.IsNearest units) :
    m = p := by
  by_contra ne
  wlog lt : m.count < p.count generalizing m p with swapped
  · have gt : p.count < m.count :=
      Nat.lt_of_le_of_ne (Nat.not_lt.mp lt) fun same => ne (eq_of_count_eq same.symm)
    exact swapped other nearest (Ne.symm ne) gt
  have tie := Nat.le_antisymm (nearest.distance_le p) (other.distance_le m)
  have even := nearest.even_of_tie p (Ne.symm ne) tie.symm
  have even' := other.even_of_tie m ne tie
  have unit := count_add_le_of_lt lt
  have within := mt (not_isNearest_of_beyond even) (not_not.mpr nearest)
  -- the two are neighbours, so one mantissa is odd
  have next : m.count + 2 ^ m.scale = p.count := by
    unfold distance at tie
    omega
  obtain ⟨less, fits, normal⟩ := m.canonical
  have same : (⟨m.mantissa + 1, m.scale, by omega, fits, normal.imp_right Nat.le_succ_of_le⟩ :
      Magnitude) = p := eq_of_count_eq ((Nat.succ_mul _ _).trans next)
  rw [← same] at even'
  simp only at even'
  omega

end Magnitude

namespace Double

/-- The double is the nearest to the number of units: the nearest magnitude with a positive sign, or
infinity from the overflow on. -/
def IsNearestUnits : Double → Nat → Prop
  | .finite negative m, units =>
    negative = false ∧ units < Magnitude.overflow ∧ m.IsNearest units
  | .infinite negative, units => negative = false ∧ Magnitude.overflow ≤ units
  | .nan, _ => False

/-- The double is the nearest to the natural number. -/
def IsNearest (x : Double) (n : Nat) : Prop := x.IsNearestUnits (n * unitsPerOne)

theorem ofUnits_cases (negative : Bool) (units : Nat) :
    (∃ m : Magnitude, ofUnits negative units 1 = .finite negative m ∧ m.Draws units 1) ∨
      ofUnits negative units 1 = .infinite negative ∧ Magnitude.overflow ≤ units := by
  unfold ofUnits
  obtain ⟨m, found, draws⟩ | ⟨missing, beyond⟩ := Magnitude.nearest?_cases units Nat.one_pos
  · exact Or.inl ⟨m, by rw [found], draws⟩
  · exact Or.inr ⟨by rw [missing], by rwa [Nat.mul_one] at beyond⟩

theorem isNearestUnits_of_draws {m : Magnitude} {units : Nat} (draws : m.Draws units 1) :
    (Double.finite false m).IsNearestUnits units :=
  ⟨rfl, by simpa using draws.lt_overflow Nat.one_pos, Magnitude.isNearest_of_draws draws⟩

/-- **Rounding gives the nearest double.** -/
theorem isNearestUnits_ofUnits (units : Nat) : (ofUnits false units 1).IsNearestUnits units := by
  obtain ⟨m, found, draws⟩ | ⟨found, beyond⟩ := ofUnits_cases false units
  · rw [found]
    exact isNearestUnits_of_draws draws
  · rw [found]
    exact ⟨rfl, beyond⟩

theorem isNearest_ofNat (n : Nat) : (ofNat n).IsNearest n := isNearestUnits_ofUnits _

/-- **There is one nearest double**, and conversion gives it. -/
theorem isNearest_iff {x : Double} {n : Nat} : x.IsNearest n ↔ x = ofNat n := by
  refine ⟨fun nearest => ?_, fun same => same ▸ isNearest_ofNat n⟩
  have converted := isNearest_ofNat n
  unfold IsNearest at *
  generalize ofNat n = y at *
  generalize n * unitsPerOne = units at *
  cases x with
  | nan => exact absurd nearest id
  | infinite negative =>
    obtain ⟨rfl, beyond⟩ := nearest
    cases y with
    | nan => exact absurd converted id
    | infinite negative => rw [converted.1]
    | finite negative m => exact absurd converted.2.1 (Nat.not_lt.mpr beyond)
  | finite negative m =>
    obtain ⟨rfl, within, nearest⟩ := nearest
    cases y with
    | nan => exact absurd converted id
    | infinite negative => exact absurd within (Nat.not_lt.mpr converted.2)
    | finite negative p => rw [converted.1, nearest.unique converted.2.2]

end Double

end HostObjects
