import HostObjects.Number.Shortest
import HostObjects.Proofs.Number.Rounding
import Mathlib.Tactic.Ring

/-!
# Shortest decimals

A grid is the set of multiples of a power of ten, and the search for the shortest decimal
goes through the grids from the coarsest to the finest.  Where a grid has a number that
rounds to the magnitude, one of the two neighbours of the magnitude on the grid does, for
the numbers that round to it are an interval around it (`roundsTo_of_between`).  So the
search stops at the coarsest grid that has such a number (`shortest_spec`).

Three things follow.  The decimal that is found lies in the interval of the magnitude, so
that reading it gives the magnitude back (`ofDecimal_of_roundsTo`).  Its last digit is not
zero.  And a whole number below `2 ^ 53` is found exactly, because its interval has no
other whole number.
-/

namespace HostObjects

open Shortest

namespace Shortest

variable {tie : TieRule} {m : Magnitude} {n step : Nat}

/-! ### Units -/

theorem two_pow_mul_five_pow (e : Nat) : 2 ^ e * 5 ^ e = 10 ^ e := (Nat.mul_pow 2 5 e).symm

theorem unitsPerOne_eq : Double.unitsPerOne = 2 ^ finest := by
  rw [Double.unitsPerOne, finest]

theorem unitsPerOne_mul_decimalUnit : Double.unitsPerOne * decimalUnit = 10 ^ finest := by
  rw [unitsPerOne_eq, decimalUnit, two_pow_mul_five_pow]

theorem decimalUnit_pos : 0 < decimalUnit := Nat.pow_pos (by decide)

theorem gapAbove_eq (m : Magnitude) : gapAbove m = m.reachAbove * decimalUnit := by
  rw [gapAbove, Magnitude.reachAbove, Nat.mul_assoc]

theorem gapBelow_eq (m : Magnitude) : gapBelow m = m.reachBelow * decimalUnit := by
  unfold gapBelow Magnitude.reachBelow
  split
  · rfl
  · rw [Nat.mul_assoc]

theorem gapAbove_pos (m : Magnitude) : 0 < gapAbove m :=
  gapAbove_eq m ▸ Nat.mul_pos m.reachAbove_pos decimalUnit_pos

theorem gapBelow_pos (m : Magnitude) : 0 < gapBelow m :=
  gapBelow_eq m ▸ Nat.mul_pos m.reachBelow_pos decimalUnit_pos

theorem gapBelow_le_gapAbove (m : Magnitude) : gapBelow m ≤ gapAbove m := by
  rw [gapBelow_eq, gapAbove_eq]
  exact Nat.mul_le_mul_right _ m.reachBelow_le

/-! ### The interval of a magnitude -/

theorem roundsTo_iff : roundsTo m n = true ↔
    quarters m ≤ n + gapBelow m ∧ n ≤ quarters m + gapAbove m ∧
      (m.mantissa % 2 = 0 ∨ quarters m < n + gapBelow m ∧ n < quarters m + gapAbove m) := by
  unfold roundsTo
  split
  · next even => simp [even]
  · next odd =>
    simp only [Bool.and_eq_true, decide_eq_true_eq]
    omega

/-- The magnitude rounds to itself. -/
theorem roundsTo_quarters (m : Magnitude) : roundsTo m (quarters m) = true := by
  have below := gapBelow_pos m
  have above := gapAbove_pos m
  rw [roundsTo_iff]
  omega

/-- What is between the magnitude and a number that rounds to it rounds to it as well. -/
theorem roundsTo_of_between {a b : Nat} (rounds : roundsTo m a = true)
    (between : a ≤ b ∧ b ≤ quarters m ∨ quarters m ≤ b ∧ b ≤ a) : roundsTo m b = true := by
  have below := gapBelow_pos m
  have above := gapAbove_pos m
  rw [roundsTo_iff] at *
  omega

/-- The interval of a magnitude goes from its half to its double at most. -/
theorem half_le_of_roundsTo (nonzero : m.mantissa ≠ 0) (rounds : roundsTo m n = true) :
    quarters m ≤ 2 * n ∧ n ≤ 2 * quarters m := by
  have least := Nat.mul_le_mul_right (2 ^ m.scale * decimalUnit) (Nat.pos_of_ne_zero nonzero)
  have below := gapBelow_le_gapAbove m
  obtain ⟨lower, upper, -⟩ := roundsTo_iff.mp rounds
  rw [gapAbove, quarters, Magnitude.count, Nat.mul_assoc m.mantissa] at *
  omega

theorem decimalUnit_le (nonzero : m.mantissa ≠ 0) : 4 * decimalUnit ≤ quarters m :=
  Nat.mul_le_mul_left 4 (Nat.le_mul_of_pos_left _
    (Nat.mul_pos (Nat.pos_of_ne_zero nonzero) (Nat.two_pow_pos m.scale)))

theorem roundsTo_zero (nonzero : m.mantissa ≠ 0) : roundsTo m 0 = false := by
  refine Bool.eq_false_iff.mpr fun rounds => ?_
  have lower := (half_le_of_roundsTo nonzero rounds).1
  have least := decimalUnit_le nonzero
  have unit := decimalUnit_pos
  omega

/-- Fractions are compared at any two scales alike. -/
theorem le_of_scaled {unit den a b c d : Nat} (unitPos : 0 < unit) (ha : a * den = unit * c)
    (hb : b * den = unit * d) (le : a ≤ b) : c ≤ d := by
  have product := Nat.mul_le_mul_right den le
  rw [ha, hb] at product
  exact Nat.le_of_mul_le_mul_left product unitPos

theorem lt_of_scaled {unit den a b c d : Nat} (pos : 0 < den) (ha : a * den = unit * c)
    (hb : b * den = unit * d) (lt : a < b) : c < d := by
  have product := Nat.mul_lt_mul_of_pos_right lt pos
  rw [ha, hb] at product
  exact Nat.lt_of_mul_lt_mul_left product

/-- A fraction that counts a number in the interval is drawn by the magnitude. -/
theorem draws_of_roundsTo {num den : Nat} (pos : 0 < den) (rounds : roundsTo m n = true)
    (same : n * den = decimalUnit * (4 * num)) : m.Draws num den := by
  obtain ⟨lower, upper, inside⟩ := roundsTo_iff.mp rounds
  have whole : quarters m * den = decimalUnit * (4 * (m.count * den)) := by
    rw [quarters]
    ring
  have below : (n + gapBelow m) * den = decimalUnit * (4 * num + m.reachBelow * den) := by
    rw [Nat.add_mul, same, gapBelow_eq]
    ring
  have above : (quarters m + gapAbove m) * den =
      decimalUnit * (4 * (m.count * den) + m.reachAbove * den) := by
    rw [Nat.add_mul, whole, gapAbove_eq]
    ring
  exact ⟨le_of_scaled decimalUnit_pos whole below lower,
    le_of_scaled decimalUnit_pos same above upper,
    inside.imp id (And.imp (lt_of_scaled pos whole below) (lt_of_scaled pos same above))⟩

/-! ### The search -/

/-- A tie goes to one of the two neighbours. -/
theorem TieRule.choose_cases (tie : TieRule) (q : Nat) :
    tie.choose q = q ∨ tie.choose q = q + 1 := by
  cases tie with
  | even =>
    simp only [TieRule.choose]
    omega
  | up => exact Or.inr rfl

/-- The neighbours of the magnitude on a grid, and which of them round to it. -/
theorem onGrid?_cases (tie : TieRule) (m : Magnitude) (step : Nat) :
    (∃ q, onGrid? tie m step = some q ∧ roundsTo m (q * step) = true) ∨
      onGrid? tie m step = none ∧ roundsTo m (quarters m / step * step) = false ∧
        roundsTo m ((quarters m / step + 1) * step) = false := by
  unfold onGrid?
  dsimp only
  split
  · next below above => exact Or.inr ⟨rfl, below, above⟩
  · next below _ => exact Or.inl ⟨_, rfl, below⟩
  · next _ above => exact Or.inl ⟨_, rfl, above⟩
  · next below above =>
    left
    split
    · exact ⟨_, rfl, below⟩
    · split
      · exact ⟨_, rfl, above⟩
      · refine ⟨_, rfl, ?_⟩
        obtain same | next := tie.choose_cases (quarters m / step)
        · rw [same, below]
        · rw [next, above]

theorem roundsTo_of_onGrid? {q : Nat} (found : onGrid? tie m step = some q) :
    roundsTo m (q * step) = true := by
  obtain ⟨q', found', rounds⟩ | ⟨none, -⟩ := onGrid?_cases tie m step
  · rw [found] at found'
    cases found'
    exact rounds
  · rw [found] at none
    cases none

/-- **A grid without an answer has no number that rounds to the magnitude.** -/
theorem roundsTo_of_onGrid?_eq_none (pos : 0 < step) (missing : onGrid? tie m step = none)
    (q : Nat) : roundsTo m (q * step) = false := by
  obtain ⟨q', found, -⟩ | ⟨-, below, above⟩ := onGrid?_cases tie m step
  · rw [missing] at found
    cases found
  · refine Bool.eq_false_iff.mpr fun rounds => ?_
    have split := Nat.div_add_mod' (quarters m) step
    have small := Nat.mod_lt (quarters m) pos
    by_cases le : q ≤ quarters m / step
    · have near := roundsTo_of_between rounds
        (Or.inl ⟨Nat.mul_le_mul_right step le, Nat.div_mul_le_self (quarters m) step⟩)
      rw [below] at near
      cases near
    · have beyond : quarters m ≤ (quarters m / step + 1) * step := by
        rw [Nat.succ_mul]
        omega
      have near := roundsTo_of_between rounds
        (Or.inr ⟨beyond, Nat.mul_le_mul_right step (Nat.not_le.mp le)⟩)
      rw [above] at near
      cases near

/-- The decimal is on the grid `k`, rounds to the magnitude, and no number on a coarser
grid up to `n` does. -/
structure FirstHit (m : Magnitude) (n k : Nat) (d : Decimal) : Prop where
  exponent : d.exponent = (k : Int) - finest
  rounds : roundsTo m (d.digits * (4 * 10 ^ k)) = true
  coarser : ∀ j q, k < j → j ≤ n → roundsTo m (q * (4 * 10 ^ j)) = false

theorem step_pos (k : Nat) : 0 < 4 * 10 ^ k := Nat.mul_pos (by decide) (Nat.pow_pos (by decide))

/-- **The search stops at the first grid with a number that rounds to the magnitude.** -/
theorem search_firstHit (tie : TieRule) (m : Magnitude) (n : Nat) :
    ∃ k, FirstHit m n k (search tie m n) := by
  induction n with
  | zero =>
    refine ⟨0, by simp [search], ?_, fun j q beyond within => absurd within (Nat.not_le.mpr beyond)⟩
    -- the magnitude itself is on the finest grid
    have whole : quarters m / 4 * (4 * 10 ^ 0) = quarters m := by
      rw [quarters]
      omega
    show roundsTo m (quarters m / 4 * (4 * 10 ^ 0)) = true
    rw [whole, roundsTo_quarters]
  | succ n ih =>
    rw [search]
    cases grid : onGrid? tie m (4 * 10 ^ (n + 1)) with
    | some q =>
      exact ⟨n + 1, rfl, roundsTo_of_onGrid? grid,
        fun j q beyond within => absurd within (Nat.not_le.mpr beyond)⟩
    | none =>
      obtain ⟨k, exponent, rounds, coarser⟩ := ih
      refine ⟨k, exponent, rounds, fun j q beyond within => ?_⟩
      obtain earlier | last : j ≤ n ∨ j = n + 1 := by omega
      · exact coarser j q beyond earlier
      · rw [last]
        exact roundsTo_of_onGrid?_eq_none (step_pos _) grid q

/-! ### The shortest decimal -/

theorem eight_pow_le_ten_pow (e : Nat) : 2 ^ (3 * e) ≤ 10 ^ e := by
  rw [Nat.pow_mul]
  exact Nat.pow_le_pow_left (by decide) e

/-- A number has at most one decimal digit more than a third of its bits. -/
theorem lt_ten_pow_log (x : Nat) : x < 10 ^ (x.log2 / 3 + 1) := by
  have bits : x < 2 ^ (x.log2 + 1) := Nat.lt_log2_self
  have more : 2 ^ (x.log2 + 1) ≤ 2 ^ (3 * (x.log2 / 3 + 1)) :=
    Nat.pow_le_pow_right (by decide) (by omega)
  exact Nat.lt_of_lt_of_le bits (Nat.le_trans more (eight_pow_le_ten_pow _))

/-- From the first grid of the search on no number rounds to the magnitude. -/
theorem roundsTo_of_coarsest_le (nonzero : m.mantissa ≠ 0) {j : Nat} (beyond : coarsest m ≤ j)
    (q : Nat) : roundsTo m (q * (4 * 10 ^ j)) = false := by
  cases q with
  | zero => rw [Nat.zero_mul, roundsTo_zero nonzero]
  | succ q =>
    refine Bool.eq_false_iff.mpr fun rounds => ?_
    have upper := (half_le_of_roundsTo nonzero rounds).2
    have large := lt_ten_pow_log (m.count * decimalUnit)
    have first : 10 ^ coarsest m = 10 ^ ((m.count * decimalUnit).log2 / 3 + 1) * 10 :=
      Nat.pow_succ _ _
    have later : 10 ^ coarsest m ≤ 10 ^ j := Nat.pow_le_pow_right (by decide) beyond
    rw [Nat.succ_mul] at upper
    rw [quarters] at *
    omega

/-- **The shortest decimal rounds to the magnitude**, and no number on a coarser grid does. -/
theorem shortest_spec (tie : TieRule) (nonzero : m.mantissa ≠ 0) :
    ∃ k, ∀ n, FirstHit m n k (shortest tie m) := by
  obtain ⟨k, exponent, rounds, coarser⟩ := search_firstHit tie m (coarsest m)
  refine ⟨k, fun n => ⟨exponent, rounds, fun j q beyond _ => ?_⟩⟩
  by_cases within : j ≤ coarsest m
  · exact coarser j q beyond within
  · exact roundsTo_of_coarsest_le nonzero (Nat.le_of_not_le within) q

/-- The shortest decimal does not end in a zero. -/
theorem shortest_digits_mod_ten (tie : TieRule) (nonzero : m.mantissa ≠ 0) :
    (shortest tie m).digits % 10 ≠ 0 := by
  intro ends
  obtain ⟨k, hit⟩ := shortest_spec tie nonzero
  have shorter := (hit (k + 1)).coarser (k + 1) ((shortest tie m).digits / 10)
    (Nat.lt_succ_self k) (Nat.le_refl _)
  have same : (shortest tie m).digits / 10 * (4 * 10 ^ (k + 1)) =
      (shortest tie m).digits * (4 * 10 ^ k) := by
    obtain ⟨q, tens⟩ := Nat.dvd_of_mod_eq_zero ends
    rw [tens, Nat.mul_div_cancel_left q (by decide)]
    ring
  rw [same, (hit k).rounds] at shorter
  cases shorter

/-! ### The range of the decimals that are read -/

/-- Thirty-three binary digits are fewer than ten decimal ones. -/
theorem two_pow_le_ten_pow (e : Nat) : 2 ^ (33 * e + 3) ≤ 10 ^ (10 * e + 1) := by
  rw [Nat.pow_add, Nat.pow_add, Nat.pow_mul, Nat.pow_mul]
  exact Nat.mul_le_mul (Nat.pow_le_pow_left (by decide) e) (by decide)

/-- A power of ten with `a` below a number of `b` bits is short of it. -/
theorem lt_of_ten_pow_lt {a b e f : Nat} (lt : 10 ^ a < 2 ^ b * 10 ^ f) (few : b ≤ 33 * e + 3) :
    a < 10 * e + 1 + f := by
  have more := Nat.mul_le_mul_right (10 ^ f)
    (Nat.le_trans (Nat.pow_le_pow_right Nat.two_pos few) (two_pow_le_ten_pow e))
  rw [← Nat.pow_add] at more
  exact (Nat.pow_lt_pow_iff_right (by decide)).mp (Nat.lt_of_lt_of_le lt more)

theorem count_lt (m : Magnitude) : m.count < 2 ^ (m.scale + 53) := by
  rw [Nat.add_comm, Nat.pow_add]
  exact Nat.mul_lt_mul_of_pos_right m.canonical.1 (Nat.two_pow_pos _)

variable {digits k : Nat}

/-- A decimal that rounds to a magnitude is not beyond the greatest one. -/
theorem grid_le_of_roundsTo (nonzero : m.mantissa ≠ 0) (pos : 0 < digits)
    (rounds : roundsTo m (digits * (4 * 10 ^ k)) = true) : k ≤ finest + 310 := by
  have upper := (half_le_of_roundsTo nonzero rounds).2
  have once := Nat.mul_le_mul_right (4 * 10 ^ k) pos
  have scale := m.canonical.2.1
  have count := Nat.mul_lt_mul_of_pos_right (count_lt m) decimalUnit_pos
  obtain ⟨b, total, few⟩ : ∃ b, m.scale + 53 + 1 ≤ b + finest ∧ b ≤ 33 * 31 + 3 :=
    ⟨1025, by rw [finest]; omega, by decide⟩
  have power : 10 ^ k < 2 ^ b * 10 ^ finest :=
    calc 10 ^ k
        ≤ 2 * (m.count * decimalUnit) := by rw [quarters] at upper; omega
      _ < 2 * (2 ^ (m.scale + 53) * decimalUnit) := Nat.mul_lt_mul_of_pos_left count Nat.two_pos
      _ = 2 ^ (m.scale + 53 + 1) * decimalUnit := by ring
      _ ≤ 2 ^ (b + finest) * decimalUnit :=
          Nat.mul_le_mul_right _ (Nat.pow_le_pow_right Nat.two_pos total)
      _ = 2 ^ b * 10 ^ finest := by
          rw [Nat.pow_add, decimalUnit, Nat.mul_assoc, two_pow_mul_five_pow]
  have grid := lt_of_ten_pow_lt power few
  omega

/-- A decimal that rounds to a magnitude is not below half the least one. -/
theorem le_grid_of_roundsTo (nonzero : m.mantissa ≠ 0)
    (rounds : roundsTo m (digits * (4 * 10 ^ k)) = true) :
    finest ≤ k + (digits.log2 / 3 + 1) + 330 := by
  have lower := (half_le_of_roundsTo nonzero rounds).1
  have least := decimalUnit_le nonzero
  have bits := Nat.mul_lt_mul_of_pos_right (lt_ten_pow_log digits) (step_pos k)
  generalize digits.log2 / 3 + 1 = l at *
  have less : decimalUnit < 2 * 10 ^ (k + l) := by
    rw [Nat.mul_left_comm (10 ^ l), Nat.mul_comm (10 ^ l), ← Nat.pow_add] at bits
    omega
  have power : 10 ^ finest < 2 ^ (finest + 1) * 10 ^ (k + l) :=
    calc 10 ^ finest
        = 2 ^ finest * decimalUnit := by rw [decimalUnit, two_pow_mul_five_pow]
      _ < 2 ^ finest * (2 * 10 ^ (k + l)) := Nat.mul_lt_mul_of_pos_left less (Nat.two_pow_pos _)
      _ = 2 ^ (finest + 1) * 10 ^ (k + l) := by rw [← Nat.mul_assoc, ← Nat.pow_succ]
  have grid := lt_of_ten_pow_lt (e := 33) power (by decide)
  omega

/-! ### Whole numbers -/

/-- Whole numbers below `2 ^ 53` are magnitudes. -/
theorem exists_count_eq {n : Nat} (small : n < 2 ^ 53) :
    ∃ m : Magnitude, m.count = n * Double.unitsPerOne := by
  rw [unitsPerOne_eq]
  exact Magnitude.exists_count_eq_mul small (by decide)

variable {n : Nat}

theorem mantissa_ne_zero_of_whole (whole : m.count = n * Double.unitsPerOne) (pos : 0 < n) :
    m.mantissa ≠ 0 := fun zero => by
  have product := Nat.mul_pos pos (Nat.two_pow_pos finest)
  rw [Magnitude.count, zero, Nat.zero_mul, unitsPerOne_eq] at whole
  omega

theorem scale_le_of_whole (whole : m.count = n * Double.unitsPerOne) (small : n < 2 ^ 53) :
    m.scale ≤ finest := by
  rw [Magnitude.count, unitsPerOne_eq] at whole
  generalize finest = f at *
  refine Nat.not_lt.mp fun beyond => ?_
  have least : 2 ^ 52 ≤ m.mantissa := m.canonical.2.2.resolve_left (by omega)
  have large : 2 ^ (f + 1) ≤ 2 ^ m.scale := Nat.pow_le_pow_right (by decide) beyond
  have product := Nat.mul_le_mul least large
  have less := Nat.mul_lt_mul_of_pos_right small (Nat.two_pow_pos f)
  rw [Nat.pow_succ] at product
  omega

theorem gapAbove_lt_of_whole (whole : m.count = n * Double.unitsPerOne) (small : n < 2 ^ 53) :
    gapAbove m < 4 * 10 ^ finest := by
  have power : 2 ^ m.scale ≤ 2 ^ finest :=
    Nat.pow_le_pow_right (by decide) (scale_le_of_whole whole small)
  have product := Nat.mul_le_mul_right decimalUnit power
  have pos := Nat.mul_pos (Nat.two_pow_pos finest) decimalUnit_pos
  rw [gapAbove, ← unitsPerOne_mul_decimalUnit, unitsPerOne_eq]
  omega

/-- A whole number below `2 ^ 53` is the only one in its interval, so it is found exactly. -/
theorem shortest_of_whole (tie : TieRule) (whole : m.count = n * Double.unitsPerOne)
    (pos : 0 < n) (small : n < 2 ^ 53) :
    ∃ e : Nat, (shortest tie m).exponent = e ∧ (shortest tie m).digits * 10 ^ e = n := by
  have nonzero := mantissa_ne_zero_of_whole whole pos
  obtain ⟨k, hit⟩ := shortest_spec tie nonzero
  have quarters_eq : quarters m = n * (4 * 10 ^ finest) := by
    rw [quarters, whole, ← unitsPerOne_mul_decimalUnit]
    ring
  have coarse : finest ≤ k := by
    by_contra fine
    have missed := (hit finest).coarser finest n (Nat.not_le.mp fine) (Nat.le_refl _)
    rw [← quarters_eq, roundsTo_quarters] at missed
    cases missed
  obtain ⟨e, rfl⟩ := Nat.exists_eq_add_of_le coarse
  refine ⟨e, by rw [(hit 0).exponent]; omega, ?_⟩
  have rounds := roundsTo_iff.mp (hit 0).rounds
  have above := gapAbove_lt_of_whole whole small
  have below := gapBelow_le_gapAbove m
  have multiple : (shortest tie m).digits * (4 * 10 ^ (finest + e)) =
      (shortest tie m).digits * 10 ^ e * (4 * 10 ^ finest) := by
    rw [Nat.pow_add]
    ring
  rw [multiple, quarters_eq] at rounds
  generalize 4 * 10 ^ finest = step at *
  generalize (shortest tie m).digits * 10 ^ e = v at *
  -- within less than a step on either side there is no other multiple
  have le : v < n + 1 := Nat.lt_of_mul_lt_mul_right (a := step) (by rw [Nat.succ_mul]; omega)
  have ge : n < v + 1 := Nat.lt_of_mul_lt_mul_right (a := step) (by rw [Nat.succ_mul]; omega)
  omega

end Shortest

namespace Double

variable {m : Magnitude}

/-- A whole number below `2 ^ 53` is a double. -/
theorem ofNat_eq {n : Nat} (small : n < 2 ^ 53) :
    ∃ m : Magnitude, ofNat n = .finite false m ∧ m.count = n * unitsPerOne := by
  obtain ⟨m, whole⟩ := exists_count_eq small
  have draws := m.draws_count Nat.one_pos
  rw [Nat.mul_one, whole] at draws
  exact ⟨m, ofUnits_of_draws false Nat.one_pos draws, whole⟩

/-- **Reading a decimal that rounds to a magnitude gives the magnitude.** -/
theorem ofDecimal_of_roundsTo (negative : Bool) (nonzero : m.mantissa ≠ 0) {digits k : Nat}
    (rounds : roundsTo m (digits * (4 * 10 ^ k)) = true) :
    ofDecimal negative digits ((k : Int) - finest) = .finite negative m := by
  have digits_ne_zero : digits ≠ 0 := fun zero => by
    rw [zero, Nat.zero_mul, roundsTo_zero nonzero] at rounds
    cases rounds
  have large := grid_le_of_roundsTo nonzero (Nat.pos_of_ne_zero digits_ne_zero) rounds
  have small := le_grid_of_roundsTo nonzero rounds
  unfold ofDecimal
  rw [if_neg digits_ne_zero, if_neg (by omega), if_neg (by omega)]
  obtain ⟨e, rfl⟩ | ⟨e, fine⟩ : (∃ e, k = finest + e) ∨ ∃ e, finest = k + (e + 1) := by
    obtain lt | le := Nat.lt_or_ge k finest
    · exact Or.inr ⟨finest - k - 1, by omega⟩
    · exact Or.inl (Nat.exists_eq_add_of_le le)
  · have exponent : ((finest + e : Nat) : Int) - finest = .ofNat e := by
      rw [Int.ofNat_eq_natCast]
      omega
    rw [exponent]
    refine ofUnits_of_draws negative Nat.one_pos (draws_of_roundsTo Nat.one_pos rounds ?_)
    rw [Nat.pow_add, ← unitsPerOne_mul_decimalUnit]
    ring
  · have exponent : (k : Int) - finest = .negSucc e := by
      rw [Int.negSucc_eq]
      omega
    have pos : 0 < 10 ^ (e + 1) := Nat.pow_pos (by decide)
    rw [exponent]
    refine ofUnits_of_draws negative pos (draws_of_roundsTo pos rounds ?_)
    have whole : 10 ^ k * 10 ^ (e + 1) = Double.unitsPerOne * decimalUnit := by
      rw [← Nat.pow_add, ← fine, unitsPerOne_mul_decimalUnit]
    calc digits * (4 * 10 ^ k) * 10 ^ (e + 1)
        = digits * 4 * (10 ^ k * 10 ^ (e + 1)) := by ring
      _ = decimalUnit * (4 * (digits * Double.unitsPerOne)) := by rw [whole]; ring

end Double

end HostObjects
