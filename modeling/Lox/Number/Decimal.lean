/-!
# Decimal numerals

A decimal is a whole number of units of a power of ten: `units / 10 ^ places`. It is read from a
numeral, which is a row of digits that one point may divide, and written as such a row. Both
directions are exact. `ofNumeral_characters` says that a written decimal is read as itself, with
the same number of places.
-/

set_option autoImplicit false
set_option relaxedAutoImplicit false

namespace Lox

/-- The number `units / 10 ^ places`. -/
structure Decimal where
  units : Nat
  places : Nat
deriving DecidableEq

namespace Decimal

/-- The number of units in one. -/
def unitsInOne (decimal : Decimal) : Nat :=
  Nat.pow 10 decimal.places

theorem unitsInOne_pos (decimal : Decimal) : 0 < decimal.unitsInOne :=
  Nat.pow_pos (by decide)

/-! ### Reading -/

/-- The decimal whose digits before and after the point are given. -/
def ofDigits (whole fraction : List Char) : Decimal :=
  ⟨Nat.ofDigitChars 10 (whole ++ fraction) 0, fraction.length⟩

/-- The decimal that a numeral denotes: the digits up to the point, and those behind it. -/
def ofNumeral (numeral : List Char) : Decimal :=
  ofDigits (numeral.takeWhile Char.isDigit) ((numeral.dropWhile Char.isDigit).drop 1)

/-! ### Writing -/

/-- The digits before the point, at least one. -/
def wholeDigits (decimal : Decimal) : List Char :=
  Nat.toDigits 10 (decimal.units / decimal.unitsInOne)

/-- The digits behind the point, as many as there are places. -/
def fractionDigits (decimal : Decimal) : List Char :=
  if decimal.places = 0 then []
  else (Nat.toDigits 10 (decimal.units % decimal.unitsInOne)).leftpad decimal.places '0'

/-- The numeral of a decimal. The point is written only if a digit follows it. -/
def characters (decimal : Decimal) : List Char :=
  decimal.wholeDigits ++ if decimal.places = 0 then [] else '.' :: decimal.fractionDigits

/-- The numeral of a decimal as a string. -/
def text (decimal : Decimal) : String :=
  String.ofList decimal.characters

/-! ### A written decimal is read as itself -/

theorem isDigit_of_mem_wholeDigits {decimal : Decimal} {character : Char}
    (hmem : character ∈ decimal.wholeDigits) : character.isDigit = true :=
  Nat.isDigit_of_mem_toDigits (by decide) (by decide) hmem

theorem isDigit_of_mem_fractionDigits {decimal : Decimal} {character : Char}
    (hmem : character ∈ decimal.fractionDigits) : character.isDigit = true := by
  unfold fractionDigits at hmem
  split at hmem
  · cases hmem
  · rcases List.mem_append.mp hmem with hzero | hdigit
    · rw [(List.mem_replicate.mp hzero).2]
      decide
    · exact Nat.isDigit_of_mem_toDigits (by decide) (by decide) hdigit

theorem length_fractionDigits (decimal : Decimal) :
    decimal.fractionDigits.length = decimal.places := by
  unfold fractionDigits
  split
  case isTrue hplaces => exact hplaces.symm
  case isFalse hplaces =>
    have hbound : (Nat.toDigits 10 (decimal.units % decimal.unitsInOne)).length ≤
        decimal.places :=
      (Nat.length_toDigits_le_iff (by decide) (Nat.pos_of_ne_zero hplaces)).mpr
        (Nat.mod_lt _ decimal.unitsInOne_pos)
    simp [List.leftpad, Nat.sub_add_cancel hbound]

theorem ofDigitChars_fractionDigits (decimal : Decimal) :
    Nat.ofDigitChars 10 decimal.fractionDigits 0 = decimal.units % decimal.unitsInOne := by
  unfold fractionDigits
  split
  case isTrue hplaces => simp [unitsInOne, hplaces, Nat.mod_one]
  case isFalse => simp [List.leftpad, Nat.ofDigitChars_append]

theorem ofDigits_wholeDigits_fractionDigits (decimal : Decimal) :
    ofDigits decimal.wholeDigits decimal.fractionDigits = decimal := by
  have hunits : Nat.ofDigitChars 10 (decimal.wholeDigits ++ decimal.fractionDigits) 0 =
      decimal.units := by
    rw [Nat.ofDigitChars_append, Nat.ofDigitChars_eq_ofDigitChars_zero,
      ofDigitChars_fractionDigits, length_fractionDigits, wholeDigits,
      Nat.ofDigitChars_ten_toDigits]
    exact Nat.div_add_mod decimal.units decimal.unitsInOne
  simp only [ofDigits, hunits, length_fractionDigits]

theorem ofNumeral_characters (decimal : Decimal) : ofNumeral decimal.characters = decimal := by
  have hwhole : ∀ character ∈ decimal.wholeDigits, character.isDigit = true :=
    fun _ ↦ isDigit_of_mem_wholeDigits
  have hread := ofDigits_wholeDigits_fractionDigits decimal
  unfold characters ofNumeral
  rw [List.takeWhile_append_of_pos hwhole, List.dropWhile_append_of_pos hwhole]
  split
  case isTrue hplaces => simpa [fractionDigits, hplaces] using hread
  case isFalse => simpa [show Char.isDigit '.' = false by decide] using hread

end Decimal

end Lox
