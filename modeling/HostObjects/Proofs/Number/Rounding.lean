import HostObjects.Number.Rounding

/-!
# Rounding to magnitudes

The numbers nearest to a magnitude form an interval around it (`Magnitude.Draws`).  It
reaches half-way to the neighbours; the neighbour below the least mantissa of a scale is
nearer than the one above, and the ends belong to an even mantissa.

Rounding a fraction gives the magnitude in whose interval the fraction lies
(`nearest?_of_draws`).  Only a fraction below the least mantissa of a scale takes a
detour: it is rounded at the scale below, where the mantissa that comes out has a bit too
many, and that bit is zero.
-/

namespace HostObjects

/-! ### The nearest integer -/

/-- The integer that is at most a half away, and even if it is a half away. -/
theorem roundHalfEven_eq {num den q : Nat} (lower : 2 * (q * den) ≤ 2 * num + den)
    (upper : 2 * num ≤ 2 * (q * den) + den)
    (tie : q % 2 = 0 ∨ 2 * (q * den) < 2 * num + den ∧ 2 * num < 2 * (q * den) + den)
    (pos : 0 < den) : roundHalfEven num den = q := by
  have split := Nat.div_add_mod num den
  have small := Nat.mod_lt num pos
  rw [roundHalfEven]
  generalize num / den = a at *
  generalize num % den = r at *
  -- the integer is the quotient or the one after it
  obtain less | rfl | rfl | more : q + 1 ≤ a ∨ q = a ∨ q = a + 1 ∨ a + 2 ≤ q := by omega
  · have far := Nat.mul_le_mul_right den less
    rw [Nat.add_mul, Nat.mul_comm a] at far
    omega
  · rw [Nat.mul_comm q] at *
    by_cases below : 2 * r < den
    · rw [if_pos below]
    · rw [if_neg below, if_neg (by omega)]
      omega
  · rw [Nat.add_mul, Nat.mul_comm a] at *
    by_cases above : den < 2 * r
    · rw [if_neg (by omega), if_pos above]
    · rw [if_neg (by omega), if_neg above]
      omega
  · have far := Nat.mul_le_mul_right den more
    rw [Nat.add_mul, Nat.mul_comm a] at far
    omega

namespace Magnitude

/-! ### The numbers nearest to a magnitude -/

/-- Half the distance to the magnitude above, in quarters of a unit. -/
def reachAbove (m : Magnitude) : Nat := 2 * 2 ^ m.scale

/-- Half the distance to the magnitude below, in quarters of a unit. -/
def reachBelow (m : Magnitude) : Nat :=
  if m.mantissa = 2 ^ 52 ∧ 0 < m.scale then 2 ^ m.scale else 2 * 2 ^ m.scale

/-- The fraction is in the interval of the numbers nearest to the magnitude. -/
structure Draws (m : Magnitude) (num den : Nat) : Prop where
  lower : 4 * (m.count * den) ≤ 4 * num + m.reachBelow * den
  upper : 4 * num ≤ 4 * (m.count * den) + m.reachAbove * den
  /-- The ends belong to an even mantissa only. -/
  inside : m.mantissa % 2 = 0 ∨
    4 * (m.count * den) < 4 * num + m.reachBelow * den ∧
      4 * num < 4 * (m.count * den) + m.reachAbove * den

theorem reachAbove_pos (m : Magnitude) : 0 < m.reachAbove :=
  Nat.mul_pos Nat.two_pos (Nat.two_pow_pos m.scale)

theorem reachBelow_le (m : Magnitude) : m.reachBelow ≤ 2 * 2 ^ m.scale := by
  unfold reachBelow
  split <;> omega

theorem reachBelow_pos (m : Magnitude) : 0 < m.reachBelow := by
  have pos := Nat.two_pow_pos m.scale
  unfold reachBelow
  split <;> omega

/-- A magnitude is in its own interval. -/
theorem draws_count (m : Magnitude) {den : Nat} (pos : 0 < den) :
    m.Draws (m.count * den) den where
  lower := Nat.le_add_right _ _
  upper := Nat.le_add_right _ _
  inside := Or.inr ⟨Nat.lt_add_of_pos_right (Nat.mul_pos m.reachBelow_pos pos),
    Nat.lt_add_of_pos_right (Nat.mul_pos m.reachAbove_pos pos)⟩

theorem eq_zero_of_mantissa (m : Magnitude) (none : m.mantissa = 0) : m = Magnitude.zero := by
  obtain ⟨mantissa, scale, canonical⟩ := m
  obtain rfl : mantissa = 0 := none
  obtain rfl : scale = 0 := canonical.2.2.resolve_right (by decide)
  rfl

theorem ofParts?_eq (m : Magnitude) : ofParts? m.mantissa m.scale = some m := dif_pos m.canonical

/-- A number of at most 53 bits is a magnitude at every scale. -/
theorem exists_count_eq_mul {n e : Nat} (small : n < 2 ^ 53) (fits : e ≤ 2045) :
    ∃ m : Magnitude, m.count = n * 2 ^ e := by
  by_cases zero : n = 0
  · exact ⟨Magnitude.zero, by rw [zero, Nat.zero_mul]; rfl⟩
  · -- the bits move up until there are 53, or the scale is used up
    obtain ⟨k, within, room, enough⟩ : ∃ k ≤ e, n.log2 + 1 + k ≤ 53 ∧ (k = e ∨ n.log2 + k = 52) := by
      have bits : n.log2 < 53 := (Nat.log2_lt zero).mpr small
      obtain lt | le := Nat.lt_or_ge (52 - n.log2) e
      · exact ⟨52 - n.log2, by omega, by omega, Or.inr (by omega)⟩
      · exact ⟨e, Nat.le_refl e, by omega, Or.inl rfl⟩
    have high : n * 2 ^ k < 2 ^ 53 := by
      have bound := Nat.mul_lt_mul_of_pos_right (Nat.lt_log2_self (n := n)) (Nat.two_pow_pos k)
      rw [← Nat.pow_add] at bound
      exact Nat.lt_of_lt_of_le bound (Nat.pow_le_pow_right Nat.two_pos room)
    have low : e - k = 0 ∨ 2 ^ 52 ≤ n * 2 ^ k := by
      refine enough.imp (fun all => by omega) fun full => ?_
      have bound := Nat.mul_le_mul_right (2 ^ k) (Nat.log2_self_le zero)
      rwa [← Nat.pow_add, full] at bound
    refine ⟨⟨n * 2 ^ k, e - k, high, by omega, low⟩, ?_⟩
    rw [count, Nat.mul_assoc, ← Nat.pow_add, Nat.add_sub_cancel' within]

/-! ### Rounding a fraction -/

theorem excessBits_eq {n s : Nat} (lower : s = 0 ∨ 2 ^ (s + 52) ≤ n) (upper : n < 2 ^ (s + 53)) :
    excessBits n = s := by
  rw [excessBits]
  by_cases zero : n = 0
  · have pos := Nat.two_pow_pos (s + 52)
    rw [zero, Nat.log2_zero]
    omega
  · have high : n.log2 < s + 53 := (Nat.log2_lt zero).mpr upper
    rcases lower with rfl | lower
    · omega
    · have low : ¬n.log2 < s + 52 := fun less => by
        have := (Nat.log2_lt zero).mp less
        omega
      omega

theorem nearest?_eq {num den s q : Nat} (scale : excessBits (num / den) = s)
    (rounds : roundHalfEven num (den * 2 ^ s) = q) :
    nearest? num den = if q < 2 ^ 53 then ofParts? q s else ofParts? (q / 2) (s + 1) := by
  rw [nearest?, scale, rounds]

variable {m : Magnitude} {num den : Nat}

/-- The interval by the unit of the last bit of the mantissa: half a unit on both sides, or less. -/
theorem Draws.half_unit (draws : m.Draws num den) :
    4 * (m.mantissa * (2 ^ m.scale * den)) ≤ 4 * num + 2 * (2 ^ m.scale * den) ∧
    4 * num ≤ 4 * (m.mantissa * (2 ^ m.scale * den)) + 2 * (2 ^ m.scale * den) ∧
    (m.mantissa % 2 = 0 ∨
      4 * (m.mantissa * (2 ^ m.scale * den)) < 4 * num + 2 * (2 ^ m.scale * den) ∧
        4 * num < 4 * (m.mantissa * (2 ^ m.scale * den)) + 2 * (2 ^ m.scale * den)) := by
  have below := Nat.mul_le_mul_right den m.reachBelow_le
  obtain ⟨lower, upper, inside⟩ := draws
  rw [count, reachAbove, Nat.mul_assoc m.mantissa, Nat.mul_assoc 2] at *
  omega

/-- A fraction from the least mantissa of the scale on is rounded at that scale. -/
theorem nearest?_of_draws_above (pos : 0 < den) (draws : m.Draws num den)
    (above : m.scale = 0 ∨ 2 ^ (m.scale + 52) * den ≤ num) : nearest? num den = some m := by
  have unit := Nat.mul_pos (Nat.two_pow_pos m.scale) pos
  have greatest := Nat.mul_le_mul_right (2 ^ m.scale * den) (Nat.succ_le_of_lt m.canonical.1)
  obtain ⟨lower, upper, inside⟩ := draws.half_unit
  have scale : excessBits (num / den) = m.scale := by
    refine excessBits_eq (above.imp id (Nat.le_div_iff_mul_le pos).mpr)
      ((Nat.div_lt_iff_lt_mul pos).mpr ?_)
    rw [Nat.succ_mul] at greatest
    rw [Nat.pow_add, Nat.mul_right_comm, Nat.mul_comm _ (2 ^ 53)]
    omega
  have rounds : roundHalfEven num (den * 2 ^ m.scale) = m.mantissa := by
    rw [Nat.mul_comm den]
    exact roundHalfEven_eq (by omega) (by omega) (by omega) unit
  rw [nearest?_eq scale rounds, if_pos m.canonical.1, ofParts?_eq]

/-- A fraction below the least mantissa of the scale is rounded at the scale before. -/
theorem nearest?_of_draws_below (pos : 0 < den) (draws : m.Draws num den) (scaled : 0 < m.scale)
    (below : num < 2 ^ (m.scale + 52) * den) : nearest? num den = some m := by
  obtain ⟨t, next⟩ : ∃ t, m.scale = t + 1 := ⟨m.scale - 1, by omega⟩
  have unit := Nat.mul_pos (Nat.two_pow_pos t) pos
  have double : 2 ^ m.scale * den = 2 * (2 ^ t * den) := by
    rw [next, Nat.pow_succ, Nat.mul_comm _ 2, Nat.mul_assoc]
  have bound : 2 ^ (m.scale + 52) * den = 2 ^ 53 * (2 ^ t * den) := by
    rw [Nat.pow_add, Nat.mul_right_comm, double]
    omega
  -- only the least mantissa reaches below itself
  have fewest : m.mantissa = 2 ^ 52 := by
    have least : 2 ^ 52 ≤ m.mantissa := m.canonical.2.2.resolve_left (by omega)
    refine Nat.le_antisymm (Nat.not_lt.mp fun more => ?_) least
    have more : (2 ^ 52 + 1) * (2 ^ m.scale * den) ≤ m.mantissa * (2 ^ m.scale * den) :=
      Nat.mul_le_mul_right _ more
    have lower := draws.half_unit.1
    omega
  have lower : 4 * (2 ^ 52 * (2 * (2 ^ t * den))) ≤ 4 * num + 2 * (2 ^ t * den) := by
    have lower := draws.lower
    rwa [count, reachBelow, if_pos ⟨fewest, scaled⟩, Nat.mul_assoc m.mantissa, double,
      fewest] at lower
  have scale : excessBits (num / den) = t := by
    refine excessBits_eq (Or.inr ((Nat.le_div_iff_mul_le pos).mpr ?_))
      ((Nat.div_lt_iff_lt_mul pos).mpr ?_)
    · rw [Nat.pow_add, Nat.mul_right_comm]
      omega
    · rw [Nat.pow_add, Nat.mul_right_comm]
      omega
  have rounds : roundHalfEven num (den * 2 ^ t) = 2 ^ 53 := by
    rw [Nat.mul_comm den]
    refine roundHalfEven_eq ?_ ?_ (Or.inl ?_) unit
    · omega
    · omega
    · rfl
  have half : 2 ^ 53 / 2 = m.mantissa := by omega
  rw [nearest?_eq scale rounds, if_neg (Nat.lt_irrefl _), half, ← next, ofParts?_eq]

/-- **Every fraction in the interval of a magnitude is rounded to it.** -/
theorem nearest?_of_draws (pos : 0 < den) (draws : m.Draws num den) :
    nearest? num den = some m := by
  by_cases above : m.scale = 0 ∨ 2 ^ (m.scale + 52) * den ≤ num
  · exact nearest?_of_draws_above pos draws above
  · rw [not_or, Nat.not_le] at above
    exact nearest?_of_draws_below pos draws (Nat.pos_of_ne_zero above.1) above.2

end Magnitude

namespace Double

variable {m : Magnitude} {num den : Nat}

theorem ofUnits_of_draws (negative : Bool) (pos : 0 < den) (draws : m.Draws num den) :
    ofUnits negative num den = .finite negative m := by
  unfold ofUnits
  rw [Magnitude.nearest?_of_draws pos draws]

end Double

end HostObjects
