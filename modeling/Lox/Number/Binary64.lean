import Lox.Number.Decimal

/-!
# The doubles and the decimals near them

The 64 bits of a double without its sign are a number, its pattern, and patterns are ordered as
the doubles are. A tick is the least positive double, and every finite double is a whole number of
ticks: `ticks` reads it off the pattern. `nearest` goes the other way, from a decimal to the
pattern of the double nearest to it. `nearest_exact` says that the full decimal expansion of a
finite double leads back to it, which is why `shortest` can always answer: it takes the first
decimal of the coarsest grid that leads back (`nearest_shortest`).

Numbers are doubles, of type `Float`. A finite one is written positionally, with the fewest digits
that are read back as the same double; `Number.ofNumeral` reads a numeral as the double nearest to
it.
-/

set_option autoImplicit false
set_option relaxedAutoImplicit false

namespace Lox.Binary64

/-! ### Patterns -/

/-- The number of binary places of a tick, and so the number of its decimal places. -/
def tickPlaces : Nat := 1074

/-- The number of ticks in one. -/
def ticksInOne : Nat := 1 <<< tickPlaces

/-- The number of patterns between two powers of two. -/
def binade : Nat := 1 <<< 52

/-- The pattern of infinity; patterns above it are no numbers. -/
def infinity : Nat := 2047 * binade

/-- The pattern of the sign bit alone. -/
def signBit : Nat := 1 <<< 63

/-- Neighbouring doubles of this pattern's size are `2 ^ exponent` ticks apart. The lowest two
binades share the spacing of one tick. -/
def exponent (pattern : Nat) : Nat :=
  pattern / binade - 1

/-- The double as a multiple of the spacing at its size. -/
def significand (pattern : Nat) : Nat :=
  pattern - exponent pattern * binade

/-- The double as a number of ticks. -/
def ticks (pattern : Nat) : Nat :=
  significand pattern <<< exponent pattern

/-! ### From a decimal to the nearest double -/

/-- The whole number nearest to a quotient; a half goes to the even neighbour. -/
def roundHalfEven (numerator denominator : Nat) : Nat :=
  let floor := numerator / denominator
  let twice := 2 * (numerator % denominator)
  if denominator < twice ∨ (denominator = twice ∧ floor % 2 = 1) then floor + 1 else floor

/-- The pattern of the double nearest to a quotient of ticks; a half goes to the even significand,
and what lies beyond the greatest double goes to infinity. The spacing is that of the double just
below. Where rounding reaches the next power of two the sum is the pattern of that power. -/
def ofTicks (numerator denominator : Nat) : Nat :=
  let exponent := (numerator / denominator).log2 - 52
  min (exponent * binade + roundHalfEven numerator (denominator <<< exponent)) infinity

/-- The pattern of the double nearest to a decimal. -/
def nearest (decimal : Decimal) : Nat :=
  ofTicks (decimal.units * ticksInOne) decimal.unitsInOne

/-! ### From a double to its shortest decimal -/

/-- The decimal that is equal to the double. -/
def exact (pattern : Nat) : Decimal :=
  ⟨ticks pattern * Nat.pow 5 tickPlaces, tickPlaces⟩

/-- Of the two neighbours of a double among the multiples of a step, the one from which `nearest`
leads back to it, if there is one. If both lead back it is the nearer, and of two equally near the
upper. -/
def neighbour? (pattern : Nat) (step : Decimal) : Option Decimal :=
  let numerator := ticks pattern * step.unitsInOne
  let denominator := ticksInOne * step.units
  let lower : Decimal := ⟨numerator / denominator * step.units, step.places⟩
  let upper : Decimal := ⟨(numerator / denominator + 1) * step.units, step.places⟩
  let preferUpper := denominator ≤ 2 * (numerator % denominator)
  if nearest upper = pattern ∧ (preferUpper ∨ nearest lower ≠ pattern) then some upper
  else if nearest lower = pattern then some lower
  else none

/-- The powers of ten from that of the double's first whole digit down to one. -/
def wholeSteps (pattern : Nat) : List Decimal :=
  (List.range (Nat.toDigits 10 (ticks pattern / ticksInOne)).length).reverse.map
    fun power ↦ ⟨Nat.pow 10 power, 0⟩

/-- The tenth, the hundredth and so on, as far as the digits of a double go. -/
def fractionSteps : List Decimal :=
  (List.range' 1 tickPlaces).map fun places ↦ ⟨1, places⟩

/-- The decimal with the fewest digits that leads back to a double, and of these the nearest. -/
def shortest (pattern : Nat) : Decimal :=
  ((wholeSteps pattern ++ fractionSteps).findSome? (neighbour? pattern)).getD (exact pattern)

/-! ### The shortest decimal leads back -/

theorem nearest_of_neighbour? {pattern : Nat} {step decimal : Decimal}
    (hsome : neighbour? pattern step = some decimal) : nearest decimal = pattern := by
  unfold neighbour? at hsome
  simp only at hsome
  split at hsome
  case isTrue hupper =>
    cases hsome
    exact hupper.1
  case isFalse =>
    split at hsome
    case isTrue hlower =>
      cases hsome
      exact hlower
    case isFalse => cases hsome

theorem roundHalfEven_mul (quotient : Nat) {denominator : Nat} (hpos : 0 < denominator) :
    roundHalfEven (quotient * denominator) denominator = quotient := by
  simp only [roundHalfEven, Nat.mul_div_cancel _ hpos, Nat.mul_mod_left]
  exact if_neg (by omega)

theorem exponent_mul_add_significand (pattern : Nat) :
    exponent pattern * binade + significand pattern = pattern := by
  have hle : exponent pattern * binade ≤ pattern :=
    Nat.le_trans (Nat.mul_le_mul_right _ (Nat.sub_le _ _)) (Nat.div_mul_le_self pattern binade)
  exact Nat.add_sub_cancel' hle

theorem significand_lt (pattern : Nat) : significand pattern < 2 * binade := by
  have hlt : pattern < (exponent pattern + 2) * binade :=
    (Nat.div_lt_iff_lt_mul (by decide)).mp (by unfold exponent; omega)
  have hsum := exponent_mul_add_significand pattern
  rw [Nat.add_mul] at hlt
  omega

theorem binade_le_significand {pattern : Nat} (hpos : 0 < exponent pattern) :
    binade ≤ significand pattern := by
  have hle : (exponent pattern + 1) * binade ≤ pattern :=
    (Nat.le_div_iff_mul_le (by decide)).mp (by unfold exponent at *; omega)
  have hsum := exponent_mul_add_significand pattern
  rw [Nat.add_mul] at hle
  omega

theorem log2_ticks (pattern : Nat) : (ticks pattern).log2 - 52 = exponent pattern := by
  rcases Nat.eq_zero_or_pos (significand pattern) with hzero | hsignificand
  · have hexponent : exponent pattern = 0 := by
      refine Nat.eq_zero_of_not_pos fun hpos ↦ ?_
      have hle := binade_le_significand hpos
      have hbinade : 0 < binade := by decide
      omega
    simp [ticks, hzero, hexponent]
  · have hlog : (ticks pattern).log2 = (significand pattern).log2 + exponent pattern := by
      have hbounds := (Nat.log2_eq_iff (Nat.ne_of_gt hsignificand)).mp rfl
      have hpower := Nat.two_pow_pos (exponent pattern)
      rw [ticks, Nat.shiftLeft_eq]
      refine (Nat.log2_eq_iff (Nat.ne_of_gt (Nat.mul_pos hsignificand hpower))).mpr ⟨?_, ?_⟩
      · rw [Nat.pow_add]
        exact Nat.mul_le_mul_right _ hbounds.1
      · rw [Nat.add_right_comm, Nat.pow_add]
        exact Nat.mul_lt_mul_of_pos_right hbounds.2 hpower
    have hupper : (significand pattern).log2 < 53 :=
      (Nat.log2_lt (Nat.ne_of_gt hsignificand)).mpr (significand_lt pattern)
    rcases Nat.eq_zero_or_pos (exponent pattern) with hzero | hpos
    · omega
    · have hlower : 52 ≤ (significand pattern).log2 :=
        (Nat.le_log2 (Nat.ne_of_gt hsignificand)).mpr (binade_le_significand hpos)
      omega

theorem ofTicks_ticks_mul {pattern denominator : Nat} (hle : pattern ≤ infinity)
    (hpos : 0 < denominator) : ofTicks (ticks pattern * denominator) denominator = pattern := by
  have hround : ticks pattern * denominator =
      significand pattern * (denominator <<< exponent pattern) := by
    rw [ticks, Nat.shiftLeft_eq, Nat.shiftLeft_eq, Nat.mul_assoc, Nat.mul_comm (2 ^ _)]
  have hspacing : 0 < denominator <<< exponent pattern := by
    rw [Nat.shiftLeft_eq]
    exact Nat.mul_pos hpos (Nat.two_pow_pos _)
  simp only [ofTicks]
  rw [Nat.mul_div_cancel _ hpos, log2_ticks, hround, roundHalfEven_mul _ hspacing,
    exponent_mul_add_significand]
  exact Nat.min_eq_left hle

private theorem mul_pow_five_mul_shiftLeft (factor places : Nat) :
    factor * Nat.pow 5 places * 1 <<< places = factor * Nat.pow 10 places := by
  rw [Nat.one_shiftLeft, Nat.mul_assoc]
  exact congrArg (factor * ·) (Nat.mul_pow 5 2 places).symm

theorem nearest_exact {pattern : Nat} (hle : pattern ≤ infinity) :
    nearest (exact pattern) = pattern := by
  have hread := ofTicks_ticks_mul hle (exact pattern).unitsInOne_pos
  have hunits : (exact pattern).units * ticksInOne = ticks pattern * (exact pattern).unitsInOne :=
    mul_pow_five_mul_shiftLeft (ticks pattern) tickPlaces
  rw [← hunits] at hread
  exact hread

private theorem getD_of_forall_mem {α : Type} (property : α → Prop) {found : Option α}
    {otherwise : α} (hfound : ∀ value ∈ found, property value) (hotherwise : property otherwise) :
    property (found.getD otherwise) := by
  cases found with
  | none => exact hotherwise
  | some value => exact hfound value rfl

theorem nearest_shortest {pattern : Nat} (hle : pattern ≤ infinity) :
    nearest (shortest pattern) = pattern := by
  refine getD_of_forall_mem (fun decimal ↦ nearest decimal = pattern)
    (fun decimal hfound ↦ ?_) (nearest_exact hle)
  obtain ⟨step, _, hstep⟩ := List.exists_of_findSome?_eq_some hfound
  exact nearest_of_neighbour? hstep

end Lox.Binary64

namespace Lox.Number

open Binary64

/-! ### The text of a number -/

/-- The pattern of a number without its sign. -/
def magnitude (number : Float) : Nat :=
  number.toBits.toNat % signBit

/-- Whether the sign bit of a number is set, as it is for negative zero. -/
def isSigned (number : Float) : Bool :=
  decide (signBit ≤ number.toBits.toNat)

/-- The nonnegative number with the given pattern. -/
def ofPattern (pattern : Nat) : Float :=
  Float.ofBits (UInt64.ofNat pattern)

/-- The text of the nonnegative number with the given pattern. -/
def patternText (pattern : Nat) : String :=
  if pattern = infinity then "inf" else (shortest pattern).text

/-- The text of a number. No exponent is written, and no point behind a whole number; only what is
no number is without its sign. -/
def text (number : Float) : String :=
  if infinity < magnitude number then "NaN"
  else if isSigned number then "-" ++ patternText (magnitude number)
  else patternText (magnitude number)

/-- The number nearest to the decimal that a numeral denotes. -/
def ofNumeral (numeral : List Char) : Float :=
  ofPattern (nearest (Decimal.ofNumeral numeral))

end Lox.Number
