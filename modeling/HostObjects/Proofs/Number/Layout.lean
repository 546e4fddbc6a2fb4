import HostObjects.Proofs.Number.Numeral
import HostObjects.Proofs.Number.ShortestDecimal

/-!
# The standard layout of numbers

The standard of the scripting language lays the shortest digits of a number out by the place
of the point (`Numeral.standard`).  Up to the twenty-first place the number is positional,
and from the sixth zero after the point on it has an exponent with its sign written out.

Numbers as strings here are laid out by a printer that was made for another format, and only
the mark of a whole number is taken off.  Its positional form ends at the sixteenth place and
at the fourth zero after the point, and its exponents have no plus sign.  So a number has its
standard text exactly when the point stands at the sixteenth place at most and there are not
five zeros after it (`toText_eq`, `scientific_eq_standard_iff`).
-/

namespace HostObjects

open Shortest

namespace Numeral

open Literal

/-! ### The standard -/

/-- An integer with its sign written out. -/
def signedInteger (e : Int) : List Char :=
  (if e < 0 then '-' else '+') :: digitChars e.natAbs

/-- The layout of the digits with the point `point` places after the first one. -/
def standard (ds : List Char) (point : Int) : List Char :=
  if ds.length ≤ point ∧ point ≤ 21 then ds ++ zeros (point.toNat - ds.length)
  else if 0 < point ∧ point ≤ 21 then ds.take point.toNat ++ '.' :: ds.drop point.toNat
  else if -6 < point ∧ point ≤ 0 then '0' :: '.' :: zeros (-point).toNat ++ ds
  else ds.take 1 ++ (if ds.length ≤ 1 then [] else '.' :: ds.drop 1) ++
    'e' :: signedInteger (point - 1)

/-- The standard text of a number with this decimal. -/
def standardText (negative : Bool) (d : Decimal) : Text :=
  Text.ofChars (sign negative ++ standard (digitChars d.digits) (point d))

variable {ds : List Char} {d : Decimal} {n : Nat}

theorem standard_whole (whole : ds.length ≤ n) (le : n ≤ 21) :
    standard ds n = ds ++ zeros (n - ds.length) :=
  if_pos ⟨mod_cast whole, mod_cast le⟩

theorem standard_inside (pos : 0 < n) (inside : ¬ds.length ≤ n) (le : n ≤ 21) :
    standard ds n = ds.take n ++ '.' :: ds.drop n := by
  rw [standard, if_neg (by omega), if_pos (by omega)]
  rfl

theorem standard_below (nonempty : ds ≠ []) (less : n < 6) :
    standard ds (-n : Int) = '0' :: '.' :: zeros n ++ ds := by
  have length := List.length_pos_iff.mpr nonempty
  rw [standard, if_neg (by omega), if_neg (by omega), if_pos (by omega)]
  congr
  omega

theorem standard_exponent {point : Int} (far : point ≤ -6 ∨ 21 < point) : standard ds point =
    ds.take 1 ++ (if ds.length ≤ 1 then [] else '.' :: ds.drop 1) ++
      'e' :: signedInteger (point - 1) := by
  rw [standard, if_neg (by omega), if_neg (by omega), if_neg (by omega)]

/-! ### The layout of numbers as strings -/

/-- **The text of a number is laid out in the standard way from the fourth zero after the point to
the sixteenth place**, and with an exponent outside this range. -/
theorem bare_ofDecimal_plain (pre : List Char) (ends : d.digits % 10 ≠ 0) :
    bare (pre ++ ofDecimal .plain d) = pre ++
      if -4 ≤ point d ∧ point d ≤ 16 then standard (digitChars d.digits) (point d)
      else scientific (digitChars d.digits) (point d) := by
  by_cases within : -4 ≤ point d ∧ point d ≤ 16
  · have positional : ofDecimal .plain d = positional (digitChars d.digits) (point d) :=
      if_pos within
    rw [positional, if_pos within]
    obtain ⟨n, before⟩ | ⟨n, behind, pos⟩ := point_cases d
    · rw [before, bare_below pre ends, standard_below (digitChars_ne_nil _) (by omega)]
    · rw [behind]
      by_cases whole : (digitChars d.digits).length ≤ n
      · rw [bare_whole pre pos whole, standard_whole whole (by omega)]
      · rw [bare_inside pre ends pos whole, standard_inside pos whole (by omega)]
  · have scientific : ofDecimal .plain d = scientific (digitChars d.digits) (point d) :=
      if_neg within
    rw [scientific, if_neg within, bare_exponent]

/-! ### Exponents -/

theorem mark_mem_scientific (ds : List Char) (point : Int) : 'e' ∈ scientific ds point := by
  simp [scientific]

/-- There is no mark of an exponent in a positional standard numeral. -/
theorem mark_not_mem_standard (within : -6 < point d ∧ point d ≤ 21) :
    'e' ∉ standard (digitChars d.digits) (point d) := by
  have digits : 'e' ∉ digitChars d.digits := fun mem => by
    cases isDigit_of_mem_digitChars mem
  have none : ∀ n, 'e' ∉ zeros n := fun n mem => by
    cases isDigit_of_mem_zeros mem
  obtain ⟨n, before⟩ | ⟨n, behind, pos⟩ := point_cases d
  · rw [before, standard_below (digitChars_ne_nil _) (by omega)]
    simp [none, digits]
  · rw [behind]
    by_cases whole : (digitChars d.digits).length ≤ n
    · rw [standard_whole whole (by omega)]
      simp [none, digits]
    · rw [standard_inside pos whole (by omega)]
      have first : 'e' ∉ (digitChars d.digits).take n := mt List.mem_of_mem_take digits
      have rest : 'e' ∉ (digitChars d.digits).drop n := mt List.mem_of_mem_drop digits
      simp [first, rest]

/-- An exponent without a plus sign is written out if it is negative. -/
theorem signedInteger_eq_integer_iff {e : Int} : integer e = signedInteger e ↔ e < 0 := by
  rw [integer_eq, signedInteger]
  by_cases negative : e < 0
  · simp [negative, sign]
  · simp only [negative, decide_false, if_false, iff_false]
    intro same
    have plus : '+' ∈ digitChars e.natAbs := by
      rw [show digitChars e.natAbs = _ from same]
      exact List.mem_cons_self
    cases isDigit_of_mem_digitChars plus

/-- **The form with an exponent is the standard one from the sixth zero after the point on.** -/
theorem scientific_eq_standard_iff :
    scientific (digitChars d.digits) (point d) = standard (digitChars d.digits) (point d) ↔
      point d ≤ -6 := by
  by_cases within : -6 < point d ∧ point d ≤ 21
  · refine ⟨fun same => ?_, fun below => absurd within.1 (not_lt.mpr below)⟩
    have mark := mark_mem_scientific (digitChars d.digits) (point d)
    rw [same] at mark
    exact absurd mark (mark_not_mem_standard within)
  · rw [standard_exponent (by omega), scientific, List.append_cancel_left_eq, List.cons_inj_right,
      signedInteger_eq_integer_iff]
    omega

end Numeral

namespace Double

open Numeral

variable {m : Magnitude}

/-- What the text of a number is, standard or not. -/
theorem toText_eq (negative : Bool) (nonzero : m.mantissa ≠ 0) {d : Decimal}
    (shortest : IsShortest m d) : (finite negative m).toText =
      if -4 ≤ point d ∧ point d ≤ 16 then standardText negative d
      else Text.ofChars (sign negative ++ scientific (digitChars d.digits) (point d)) := by
  obtain rfl := (isShortest_iff nonzero).mp shortest
  rw [toText, toChars_of_mantissa negative nonzero,
    bare_ofDecimal_plain _ (shortest_digits_mod_ten .even nonzero)]
  split
  · rfl
  · rfl

/-- **The text of a number is the standard one exactly when the point stands at the sixteenth place
at most and there are not five zeros after it.**  The digits are those of the one shortest
decimal. -/
theorem toText_eq_standardText_iff (negative : Bool) (nonzero : m.mantissa ≠ 0) :
    ∃ d, (∀ c, IsShortest m c ↔ c = d) ∧
      ((finite negative m).toText = standardText negative d ↔ point d ≤ 16 ∧ point d ≠ -5) := by
  refine ⟨shortest .even m, fun c => isShortest_iff nonzero, ?_⟩
  rw [toText_eq negative nonzero ((isShortest_iff nonzero).mpr rfl)]
  generalize shortest .even m = d
  by_cases within : -4 ≤ point d ∧ point d ≤ 16
  · rw [if_pos within]
    exact ⟨fun _ => ⟨within.2, by omega⟩, fun _ => rfl⟩
  · rw [if_neg within, standardText, Text.ofChars_inj, List.append_cancel_left_eq,
      scientific_eq_standard_iff]
    omega

/-- The magnitude of `10 ^ 21`. -/
def sextillion : Magnitude := ⟨7629394531250000, 1091, by decide⟩

theorem toText_eq_standardText_iff_sextillion :
    sextillion.mantissa ≠ 0 ∧ ∃ d, (∀ c, IsShortest sextillion c ↔ c = d) ∧
      ((finite true sextillion).toText = standardText true d ↔ point d ≤ 16 ∧ point d ≠ -5) :=
  ⟨by decide, toText_eq_standardText_iff true (by decide)⟩

/-- The exponent of `10 ^ 21` has no plus sign. -/
theorem toText_sextillion_ne :
    IsShortest sextillion ⟨1, 21⟩ ∧ (finite false sextillion).toText = Text.ofString "1e21" ∧
      standardText false ⟨1, 21⟩ = Text.ofString "1e+21" ∧
      (finite false sextillion).toText ≠ standardText false ⟨1, 21⟩ := by
  refine ⟨(isShortest_iff (by decide)).mpr ?_, ?_, ?_, ?_⟩ <;> decide +kernel

end Double

end HostObjects
