import HostObjects.Number.Literal
import HostObjects.Proofs.Number.Nearest
import HostObjects.Proofs.Number.Shortest

/-!
# Integers with a radix mark

An integer with a radix mark is taken in digit by digit, and every step rounds.  The radix
is a power of two, so the product is exact, and two phases follow each other.  Below
`2 ^ 53` the sum is exact too.  From there on a digit is less than half a unit of the
product, and rounding drops it.  So the number that is read is the double nearest to the
integer whose digits from some place on are zeros (`Literal.kept`,
`takeDigits_ofNat`).

Only the first of these roundings decides.  If the kept digits are not half-way between two
doubles the dropped ones change nothing, for they are worth less than one in the last place
that is kept.  If they are, and the tie went down to an even mantissa, a dropped digit other
than zero makes the double above the nearest one, and that is not the one that is read
(`LosesTie`, `isNearest_kept_iff`).
-/

namespace HostObjects

namespace Magnitude

variable {m p : Magnitude} {num b e n : Nat}

/-- A number of 54 bits or more is at a scale above its last bit. -/
theorem lt_scale_of_draws (draws : m.Draws (n * 2 ^ e) 1) (large : 2 ^ 53 ≤ n) : e < m.scale := by
  refine Nat.not_le.mp fun le => ?_
  have upper := draws.half_unit.2.1
  have most := Nat.mul_le_mul_right (2 ^ m.scale) (Nat.le_of_lt_succ m.canonical.1)
  have least := Nat.mul_le_mul_right (2 ^ e) large
  have unit : 2 ^ m.scale ≤ 2 ^ e := Nat.pow_le_pow_right Nat.two_pos le
  have pos := Nat.two_pow_pos e
  rw [Nat.mul_one] at upper
  omega

/-- The interval of a mantissa with 53 bits starts at the end of the scale before. -/
theorem Draws.le (draws : m.Draws num 1) (normal : 2 ^ 52 ≤ m.mantissa) (pos : 0 < m.scale) :
    (2 ^ 54 - 1) * 2 ^ m.scale ≤ 4 * num := by
  have lower := draws.lower
  have reach := m.reachBelow_le
  rw [Nat.mul_one, Nat.mul_one, count] at lower
  obtain least | more := Nat.eq_or_lt_of_le normal
  · rw [reachBelow, if_pos ⟨least.symm, pos⟩, ← least] at lower
    omega
  · have product := Nat.mul_le_mul_right (2 ^ m.scale) (Nat.succ_le_of_lt more)
    rw [Nat.succ_mul] at product
    omega

/-- The interval moves with the scale. -/
theorem Draws.shift (draws : m.Draws num 1) (mantissa : p.mantissa = m.mantissa)
    (scale : p.scale = m.scale + b) (pos : 0 < m.scale) : p.Draws (num * 2 ^ b) 1 := by
  have power : 2 ^ p.scale = 2 ^ m.scale * 2 ^ b := by rw [scale, Nat.pow_add]
  have count : p.count = m.count * 2 ^ b := by
    rw [Magnitude.count, Magnitude.count, mantissa, power, Nat.mul_assoc]
  have above : p.reachAbove = m.reachAbove * 2 ^ b := by
    rw [reachAbove, reachAbove, power, Nat.mul_assoc]
  have below : p.reachBelow = m.reachBelow * 2 ^ b := by
    have pos' : 0 < p.scale := by omega
    unfold reachBelow
    simp only [mantissa, pos, pos', and_true]
    split
    · exact power
    · rw [power, Nat.mul_assoc]
  have lowerEnd : 4 * (p.count * 1) = 4 * (m.count * 1) * 2 ^ b := by rw [count]; ring
  have upperEnd : 4 * (p.count * 1) + p.reachAbove * 1 =
      (4 * (m.count * 1) + m.reachAbove * 1) * 2 ^ b := by rw [count, above]; ring
  have reached : 4 * (num * 2 ^ b) + p.reachBelow * 1 = (4 * num + m.reachBelow * 1) * 2 ^ b := by
    rw [below]
    ring
  have moved : 4 * (num * 2 ^ b) = 4 * num * 2 ^ b := by ring
  have unit := Nat.two_pow_pos b
  obtain ⟨lower, upper, inside⟩ := draws
  constructor
  · rw [lowerEnd, reached]
    exact Nat.mul_le_mul_right _ lower
  · rw [moved, upperEnd]
    exact Nat.mul_le_mul_right _ upper
  · rw [upperEnd, lowerEnd, reached, moved, mantissa]
    exact inside.imp_right (And.imp (Nat.mul_lt_mul_of_pos_right · unit)
      (Nat.mul_lt_mul_of_pos_right · unit))

/-- Less than half a unit more does not leave the interval. -/
theorem draws_count_add (m : Magnitude) {k : Nat} (less : 2 * k < 2 ^ m.scale) :
    m.Draws (m.count + k) 1 := by
  have above : m.reachAbove = 2 * 2 ^ m.scale := rfl
  have below := m.reachBelow_pos
  constructor <;> omega

end Magnitude

namespace Double

open Magnitude Shortest

variable {b d n : Nat}

theorem ofUnits_of_overflow {negative : Bool} {units : Nat} (beyond : overflow ≤ units) :
    ofUnits negative units 1 = .infinite negative := by
  obtain ⟨m, -, draws⟩ | ⟨found, -⟩ := ofUnits_cases negative units
  · have within := draws.lt_overflow Nat.one_pos
    omega
  · exact found

theorem ofUnits_count (m : Magnitude) : ofUnits false m.count 1 = .finite false m := by
  have draws := m.draws_count Nat.one_pos
  rw [Nat.mul_one] at draws
  exact ofUnits_of_draws false Nat.one_pos draws

theorem ofNat_zero : ofNat 0 = .zero := by
  rw [ofNat, Nat.zero_mul]
  exact ofUnits_count Magnitude.zero

theorem shiftIn_of_product {m p : Magnitude} {radix : Nat} (product : p.count = m.count * radix) :
    (finite false m).shiftIn radix d = ofUnits false (p.count + d * unitsPerOne) 1 := by
  have whole : ofUnits false (m.count * radix) 1 = .finite false p := by
    rw [← product]
    exact ofUnits_count p
  unfold shiftIn
  dsimp only
  rw [whole]

theorem shiftIn_of_overflow {m : Magnitude} {radix : Nat} (beyond : overflow ≤ m.count * radix) :
    (finite false m).shiftIn radix d = .infinite false := by
  unfold shiftIn
  dsimp only
  rw [ofUnits_of_overflow beyond]

/-- Below `2 ^ 53` a digit is taken in exactly. -/
theorem shiftIn_ofNat_of_lt (few : b ≤ 4) (small : n < 2 ^ 53) :
    (ofNat n).shiftIn (2 ^ b) d = ofNat (n * 2 ^ b + d) := by
  obtain ⟨m, count⟩ := exists_count_eq_mul (e := finest) small (by decide)
  obtain ⟨p, product⟩ := exists_count_eq_mul (e := finest + b) small (by rw [finest]; omega)
  have read : ofNat n = .finite false m := by rw [ofNat, unitsPerOne_eq, ← count, ofUnits_count]
  rw [Nat.pow_add, ← Nat.mul_assoc] at product
  rw [read, shiftIn_of_product (product.trans (by rw [count])), ofNat, product, Nat.add_mul,
    unitsPerOne_eq, Nat.mul_right_comm]

/-- From `2 ^ 53` on a digit is dropped. -/
theorem shiftIn_ofNat_of_le (less : d < 2 ^ b) (large : 2 ^ 53 ≤ n) :
    (ofNat n).shiftIn (2 ^ b) d = ofNat (n * 2 ^ b) := by
  have unit := Nat.two_pow_pos finest
  rw [ofNat, ofNat, Nat.mul_right_comm, unitsPerOne_eq]
  obtain ⟨m, read, draws⟩ | ⟨read, beyond⟩ := ofUnits_cases false (n * 2 ^ finest)
  · have scale : finest < m.scale := lt_scale_of_draws draws large
    have normal : 2 ^ 52 ≤ m.mantissa := m.canonical.2.2.resolve_left (by omega)
    rw [read]
    by_cases fits : m.scale + b ≤ 2045
    · -- the product has the same mantissa, and the digit is less than half a unit of it
      let p : Magnitude := ⟨m.mantissa, m.scale + b, m.canonical.1, fits, Or.inr normal⟩
      have product : p.count = m.count * 2 ^ b := by
        rw [count, count, Nat.mul_assoc, ← Nat.pow_add]
      have half : 2 * (d * 2 ^ finest) < 2 ^ p.scale := by
        have power : ∀ e, e < m.scale → 2 * (2 ^ b * 2 ^ e) ≤ 2 ^ p.scale := fun e lt => by
          rw [← Nat.pow_add, ← Nat.pow_succ']
          exact Nat.pow_le_pow_right Nat.two_pos (show b + e + 1 ≤ m.scale + b by omega)
        have product := Nat.mul_lt_mul_of_pos_right less unit
        exact Nat.lt_of_lt_of_le (Nat.mul_lt_mul_of_pos_left product Nat.two_pos)
          (power finest scale)
      rw [shiftIn_of_product product, unitsPerOne_eq,
        ofUnits_of_draws false Nat.one_pos (p.draws_count_add half),
        ofUnits_of_draws false Nat.one_pos (draws.shift (p := p) rfl rfl (Nat.zero_lt_of_lt scale))]
    · -- both products are beyond the greatest magnitude
      have large : ∀ units, (2 ^ 54 - 1) * 2 ^ m.scale ≤ 4 * units → overflow ≤ units * 2 ^ b := by
        intro units least
        have scaled := Nat.mul_le_mul_right (2 ^ b) least
        rw [Nat.mul_assoc, ← Nat.pow_add, Nat.mul_assoc] at scaled
        have beyond : overflow * 1 ≤ units * 2 ^ b :=
          overflow_le_of_scale (s := m.scale + b) (e := 2) (by omega) (by rwa [Nat.mul_one])
        rwa [Nat.mul_one] at beyond
      have most : (2 ^ 54 - 1) * 2 ^ m.scale ≤ 4 * m.count := by
        have normal := Nat.mul_le_mul_right (2 ^ m.scale) normal
        rw [count]
        omega
      rw [shiftIn_of_overflow (large _ most),
        ofUnits_of_overflow (large _ (draws.le normal (Nat.zero_lt_of_lt scale)))]
  · -- infinity stays infinity
    have still : overflow ≤ n * 2 ^ finest * 2 ^ b :=
      Nat.le_trans beyond (Nat.le_mul_of_pos_right _ (Nat.two_pow_pos b))
    rw [read, ofUnits_of_overflow still]
    rfl

end Double

namespace Literal

open Magnitude Shortest

variable {b n : Nat} {radix : Nat} {cs : List Char}

/-! ### The digits that count -/

/-- The digits are digits of the radix. -/
def AreDigits (radix : Nat) (cs : List Char) : Prop := ∀ c ∈ cs, (radixDigit? radix c).isSome

instance (radix : Nat) (cs : List Char) : Decidable (AreDigits radix cs) :=
  List.decidableBAll _ cs

/-- The number after some digits that follow a number. -/
def valueFrom (radix n : Nat) (cs : List Char) : Nat :=
  cs.foldl (fun n c => n * radix + (digitValue? c).getD 0) n

/-- The integer that some digits denote. -/
def radixValue (radix : Nat) (cs : List Char) : Nat := valueFrom radix 0 cs

/-- As `valueFrom`, with zero for every digit after the number has reached `2 ^ 53`. -/
def keptFrom (radix n : Nat) (cs : List Char) : Nat :=
  cs.foldl (fun n c => n * radix + if n < 2 ^ 53 then (digitValue? c).getD 0 else 0) n

/-- The integer of the digits, with zeros in place of those after 53 bits. -/
def kept (radix : Nat) (cs : List Char) : Nat := keptFrom radix 0 cs

theorem radixDigit?_eq {c : Char} (digit : (radixDigit? radix c).isSome) :
    radixDigit? radix c = some ((digitValue? c).getD 0) ∧ (digitValue? c).getD 0 < radix := by
  obtain ⟨d, found⟩ := Option.isSome_iff_exists.mp digit
  obtain ⟨value, less⟩ := Option.filter_eq_some_iff.mp found
  rw [found, value]
  exact ⟨rfl, by simpa using less⟩

theorem exists_two_pow_of_radix? {mark : Char} (marked : radix? mark = some radix) :
    ∃ b, b ≤ 4 ∧ radix = 2 ^ b := by
  unfold radix? at marked
  repeat' split at marked
  · exact ⟨4, Nat.le_refl 4, (Option.some.inj marked).symm⟩
  · exact ⟨3, by decide, (Option.some.inj marked).symm⟩
  · exact ⟨1, by decide, (Option.some.inj marked).symm⟩
  · cases marked

/-- **What is read is the double nearest to the digits that are kept.** -/
theorem takeDigits_ofNat (few : b ≤ 4) (digits : AreDigits (2 ^ b) cs) (n : Nat) :
    takeDigits (2 ^ b) (Double.ofNat n) cs = Double.ofNat (keptFrom (2 ^ b) n cs) := by
  induction cs generalizing n with
  | nil => rfl
  | cons c cs ih =>
    obtain ⟨digit, digits⟩ := List.forall_mem_cons.mp digits
    obtain ⟨value, less⟩ := radixDigit?_eq digit
    rw [takeDigits, value, keptFrom, List.foldl_cons, ← keptFrom, ← ih digits]
    dsimp only
    congr 1
    split
    · next small => exact Double.shiftIn_ofNat_of_lt few small
    · next large => exact Double.shiftIn_ofNat_of_le less (Nat.not_lt.mp large)

/-! ### The digits that are dropped -/

theorem valueFrom_eq (radix n : Nat) (cs : List Char) :
    valueFrom radix n cs = n * radix ^ cs.length + radixValue radix cs := by
  induction cs generalizing n with
  | nil => simp [radixValue, valueFrom]
  | cons c cs ih =>
    have first : ∀ n, valueFrom radix n (c :: cs) =
        (n * radix + (digitValue? c).getD 0) * radix ^ cs.length + radixValue radix cs :=
      fun n => ih _
    rw [radixValue, first, first, List.length_cons, Nat.pow_succ]
    ring

theorem radixValue_cons (radix : Nat) (c : Char) (cs : List Char) : radixValue radix (c :: cs) =
    (digitValue? c).getD 0 * radix ^ cs.length + radixValue radix cs := by
  have first : radixValue radix (c :: cs) =
      valueFrom radix (0 * radix + (digitValue? c).getD 0) cs := rfl
  rw [first, valueFrom_eq, Nat.zero_mul, Nat.zero_add]

theorem radixValue_lt (digits : AreDigits radix cs) : radixValue radix cs < radix ^ cs.length := by
  induction cs with
  | nil => exact Nat.one_pos
  | cons c cs ih =>
    obtain ⟨digit, digits⟩ := List.forall_mem_cons.mp digits
    have less := (radixDigit?_eq digit).2
    have rest := ih digits
    have product := Nat.mul_le_mul_right (radix ^ cs.length) (Nat.succ_le_of_lt less)
    rw [Nat.succ_mul] at product
    rw [radixValue_cons, List.length_cons, Nat.pow_succ, Nat.mul_comm _ radix]
    omega

theorem keptFrom_of_le (pos : 0 < radix) (large : 2 ^ 53 ≤ n) :
    keptFrom radix n cs = n * radix ^ cs.length := by
  induction cs generalizing n with
  | nil => simp [keptFrom]
  | cons c cs ih =>
    have step : keptFrom radix n (c :: cs) = keptFrom radix (n * radix) cs := by
      rw [keptFrom, List.foldl_cons, if_neg (Nat.not_lt.mpr large)]
      rfl
    rw [step, ih (Nat.le_trans large (Nat.le_mul_of_pos_right n pos)), List.length_cons,
      Nat.pow_succ', Nat.mul_assoc]

/-- The number that is read up to `2 ^ 53`, the count of the digits after it, and what they are
worth. -/
theorem exists_keptFrom (pos : 0 < radix) (digits : AreDigits radix cs) (n : Nat) :
    ∃ p k r, keptFrom radix n cs = p * radix ^ k ∧ valueFrom radix n cs = p * radix ^ k + r ∧
      r < radix ^ k ∧ (2 ^ 53 ≤ p ∨ r = 0) := by
  by_cases large : 2 ^ 53 ≤ n
  · exact ⟨n, cs.length, radixValue radix cs, keptFrom_of_le pos large, valueFrom_eq radix n cs,
      radixValue_lt digits, Or.inl large⟩
  · induction cs generalizing n with
    | nil => exact ⟨n, 0, 0, by simp [keptFrom], by simp [valueFrom], Nat.one_pos, Or.inr rfl⟩
    | cons c cs ih =>
      have digits := (List.forall_mem_cons.mp digits).2
      rw [keptFrom, valueFrom, List.foldl_cons, List.foldl_cons, if_pos (Nat.not_le.mp large)]
      by_cases next : 2 ^ 53 ≤ n * radix + (digitValue? c).getD 0
      · exact ⟨_, cs.length, radixValue radix cs, keptFrom_of_le pos next,
          valueFrom_eq radix _ cs, radixValue_lt digits, Or.inl next⟩
      · exact ih digits _ next

/-- The digits that are kept are half-way above a magnitude with an even mantissa, and the digits
that are dropped are not all zeros. -/
def LosesTie (radix : Nat) (cs : List Char) : Prop :=
  ∃ m : Magnitude, m.mantissa % 2 = 0 ∧
    2 * (kept radix cs * Double.unitsPerOne) = 2 * m.count + 2 ^ m.scale ∧
    kept radix cs < radixValue radix cs

/-- The interval of a magnitude that the kept digits do not end has the dropped digits in it. -/
theorem draws_dropped {m : Magnitude} {p k r : Nat} (large : 2 ^ 53 ≤ p) (less : r < 2 ^ k)
    (draws : m.Draws (p * 2 ^ k) 1) (inside : 2 * (p * 2 ^ k) ≠ 2 * m.count + 2 ^ m.scale) :
    m.Draws (p * 2 ^ k + r) 1 := by
  have scale := lt_scale_of_draws draws large
  obtain ⟨t, sum⟩ := Nat.exists_eq_add_of_lt scale
  have power : 2 ^ m.scale = 2 * (2 ^ t * 2 ^ k) := by
    rw [← Nat.pow_add, ← Nat.pow_succ', sum]
    congr 1
    omega
  have above : m.reachAbove = 2 * 2 ^ m.scale := rfl
  have below := m.reachBelow_pos
  obtain ⟨lower, upper, ends⟩ := draws
  -- the end of the interval is a multiple of the unit of the kept digits
  have whole : m.count + 2 ^ t * 2 ^ k = (m.mantissa * 2 * 2 ^ t + 2 ^ t) * 2 ^ k := by
    rw [Magnitude.count, power]
    ring
  have le : p * 2 ^ k < (m.mantissa * 2 * 2 ^ t + 2 ^ t) * 2 ^ k := by omega
  have step := Nat.mul_le_mul_right (2 ^ k) (Nat.succ_le_of_lt (Nat.lt_of_mul_lt_mul_right le))
  rw [Nat.succ_mul] at step
  constructor <;> omega

/-- The tie went down, and the digits that are dropped put the integer beyond it. -/
theorem LosesTie.not_isNearest (lost : LosesTie radix cs) :
    ¬(Double.ofNat (kept radix cs)).IsNearest (radixValue radix cs) := by
  intro nearest
  obtain ⟨m, even, tie, dropped⟩ := lost
  have draws : m.Draws (kept radix cs * Double.unitsPerOne) 1 := by
    have above : m.reachAbove = 2 * 2 ^ m.scale := rfl
    exact ⟨by omega, by omega, Or.inl even⟩
  rw [Double.ofNat, Double.ofUnits_of_draws false Nat.one_pos draws] at nearest
  have more := Nat.mul_lt_mul_of_pos_right dropped (Nat.two_pow_pos finest)
  rw [← unitsPerOne_eq] at more
  exact not_isNearest_of_beyond even (by omega) nearest.2.2

/-- Dropped digits that decide no tie leave the nearest magnitude as it is. -/
theorem draws_dropped_of_tie {m : Magnitude} {p k r : Nat} (large : 2 ^ 53 ≤ p) (less : r < 2 ^ k)
    (draws : m.Draws (p * 2 ^ k) 1)
    (noTie : m.mantissa % 2 = 0 → 2 * (p * 2 ^ k) = 2 * m.count + 2 ^ m.scale → r = 0) :
    m.Draws (p * 2 ^ k + r) 1 := by
  by_cases tie : 2 * (p * 2 ^ k) = 2 * m.count + 2 ^ m.scale
  · -- the tie went down, so the mantissa is even
    have above : m.reachAbove = 2 * 2 ^ m.scale := rfl
    have even := draws.inside.resolve_right (by omega)
    rwa [noTie even tie, Nat.add_zero]
  · exact draws_dropped large less draws tie

theorem isNearest_kept_iff (digits : AreDigits (2 ^ b) cs) :
    (Double.ofNat (kept (2 ^ b) cs)).IsNearest (radixValue (2 ^ b) cs) ↔ ¬LosesTie (2 ^ b) cs := by
  refine ⟨fun nearest lost => lost.not_isNearest nearest, fun noTie => ?_⟩
  obtain ⟨p, k, r, keeps, value, less, or⟩ := exists_keptFrom (Nat.two_pow_pos b) digits 0
  change kept (2 ^ b) cs = p * (2 ^ b) ^ k at keeps
  change radixValue (2 ^ b) cs = p * (2 ^ b) ^ k + r at value
  rw [← Nat.pow_mul] at keeps value less
  obtain large | none := or
  · have units : kept (2 ^ b) cs * Double.unitsPerOne = p * 2 ^ (b * k + finest) := by
      rw [keeps, unitsPerOne_eq, Nat.mul_assoc, ← Nat.pow_add]
    have more : radixValue (2 ^ b) cs * Double.unitsPerOne =
        p * 2 ^ (b * k + finest) + r * 2 ^ finest := by
      rw [value, unitsPerOne_eq, Nat.add_mul, Nat.mul_assoc, ← Nat.pow_add]
    have dropped : r * 2 ^ finest < 2 ^ (b * k + finest) := by
      rw [Nat.pow_add]
      exact Nat.mul_lt_mul_of_pos_right less (Nat.two_pow_pos finest)
    rw [Double.IsNearest, Double.ofNat, more, units]
    obtain ⟨m, found, draws⟩ | ⟨found, beyond⟩ :=
      Double.ofUnits_cases false (p * 2 ^ (b * k + finest))
    · rw [found]
      refine Double.isNearestUnits_of_draws (draws_dropped_of_tie large dropped draws ?_)
      intro even tie
      refine Nat.mul_eq_zero.mpr (Or.inl (Nat.eq_zero_of_not_pos fun pos => noTie ?_))
      refine ⟨m, even, by rw [units, tie], ?_⟩
      rw [keeps, value]
      exact Nat.lt_add_of_pos_right pos
    · rw [found]
      exact ⟨rfl, Nat.le_trans beyond (Nat.le_add_right _ _)⟩
  · rw [keeps, value, none, Nat.add_zero]
    exact Double.isNearest_ofNat _

/-- A literal with a radix mark is the double of the digits that are kept. -/
theorem toDouble_of_marked {t : Text} {mark : Char}
    (trimmed : trimBlanks t.chars = '0' :: mark :: cs) (marked : radix? mark = some radix)
    (nonempty : cs ≠ []) (digits : AreDigits radix cs) :
    t.toDouble = Double.ofNat (kept radix cs) := by
  obtain ⟨b, few, rfl⟩ := exists_two_pow_of_radix? marked
  obtain ⟨c, rest, rfl⟩ := List.exists_cons_of_ne_nil nonempty
  rw [Text.toDouble, trimmed, number, if_neg (List.cons_ne_nil _ _), marked?, marked,
    Option.map_some, Option.getD_some, radixNumber, ← Double.ofNat_zero]
  · exact takeDigits_ofNat few digits 0
  · exact List.cons_ne_nil _ _

/-- **A literal with a radix mark is read as the double nearest to its integer, unless the digits
that are dropped decide a tie.**  It is always the double nearest to the integer with zeros for the
digits after 53 bits. -/
theorem marked_nearest_iff {t : Text} {mark : Char} {digits : List Char} {radix : Nat}
    (trimmed : trimBlanks t.chars = '0' :: mark :: digits) (marked : radix? mark = some radix)
    (nonempty : digits ≠ []) (valid : AreDigits radix digits) :
    t.toDouble.IsNearest (kept radix digits) ∧
      (t.toDouble.IsNearest (radixValue radix digits) ↔ ¬LosesTie radix digits) := by
  rw [toDouble_of_marked trimmed marked nonempty valid]
  refine ⟨Double.isNearest_ofNat _, ?_⟩
  obtain ⟨b, -, rfl⟩ := exists_two_pow_of_radix? marked
  exact isNearest_kept_iff valid

/-- A literal of 58 bits. Its first 54 are half-way between two doubles, and its last is set. -/
def tieText : Text := Text.ofString " 0x200000000000011 "

theorem marked_nearest_iff_tieText :
    trimBlanks tieText.chars = '0' :: 'x' :: "200000000000011".toList ∧ radix? 'x' = some 16 ∧
      "200000000000011".toList ≠ [] ∧ AreDigits 16 "200000000000011".toList ∧
      tieText.toDouble.IsNearest (kept 16 "200000000000011".toList) ∧
      (tieText.toDouble.IsNearest (radixValue 16 "200000000000011".toList) ↔
        ¬LosesTie 16 "200000000000011".toList) := by
  have trimmed : trimBlanks tieText.chars = '0' :: 'x' :: "200000000000011".toList := by
    decide +kernel
  have valid : AreDigits 16 "200000000000011".toList := by decide +kernel
  exact ⟨trimmed, rfl, by decide, valid, marked_nearest_iff trimmed rfl (by decide) valid⟩

/-- The last digit is lost, and with it the nearest double. -/
theorem not_nearest_tieText :
    trimBlanks tieText.chars = '0' :: 'x' :: "200000000000011".toList ∧
      radixValue 16 "200000000000011".toList = 0x200000000000011 ∧
      ¬tieText.toDouble.IsNearest 0x200000000000011 := by
  refine ⟨by decide +kernel, by decide +kernel, ?_⟩
  rw [Double.isNearest_iff]
  decide +kernel

end Literal

end HostObjects
