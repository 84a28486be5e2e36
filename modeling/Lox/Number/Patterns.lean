import Lox.Number.Binary64
import Lox.Number.Bits

/-!
# Numbers and their patterns

A number without a sign is the number made of its pattern (`ofPattern_magnitude`), and one with a
sign is the opposite of that, bit for bit, negative zero not excepted (`neg_ofPattern_magnitude`).
The text of a finite number is the shortest decimal of its pattern, which is a numeral of the number
made of the pattern (`ofNumeral_shortest`), with a minus before it if there is a sign
(`text_of_isSigned`).

The number made of a pattern has this pattern and no sign, if the pattern is at most that of
infinity (`magnitude_ofPattern`, `isSigned_ofPattern`). All numbers that numerals denote are made of
such patterns (`exists_ofNumeral_eq`). The last of them is infinite, and its text is no numeral
(`text_infinite`).
-/

set_option autoImplicit false
set_option relaxedAutoImplicit false

namespace Lox.Number

open Binary64

variable {number : Float} {pattern : Nat}

/-! ### Numbers without a sign -/

theorem magnitude_of_not_isSigned (hunsigned : isSigned number = false) :
    magnitude number = number.toBits.toNat :=
  Nat.mod_eq_of_lt (Nat.lt_of_not_le (of_decide_eq_false hunsigned))

theorem ofPattern_magnitude (hunsigned : isSigned number = false) :
    ofPattern (magnitude number) = number := by
  rw [magnitude_of_not_isSigned hunsigned, ofPattern, UInt64.ofNat_toNat, Bits.ofBits_toBits]

theorem text_of_lt_infinity (hunsigned : isSigned number = false)
    (hfinite : magnitude number < infinity) :
    text number = (shortest (magnitude number)).text := by
  simp [text, patternText, hunsigned, Nat.ne_of_lt hfinite, Nat.not_lt_of_lt hfinite]

/-- The shortest decimal of a pattern is read as the number with that pattern. -/
theorem ofNumeral_shortest (hle : pattern ≤ infinity) :
    ofNumeral (shortest pattern).text.toList = ofPattern pattern := by
  rw [Decimal.text, String.toList_ofList, ofNumeral, Decimal.ofNumeral_characters,
    nearest_shortest hle]

/-! ### Numbers with a sign -/

/-- A number with a sign is the opposite of the number with its pattern and no sign. -/
theorem neg_ofPattern_magnitude (hsigned : isSigned number = true)
    (hfinite : magnitude number < infinity) : -ofPattern (magnitude number) = number := by
  have hsize : signBit = 2 ^ 63 := by decide
  have hlimit : infinity = 2047 * 2 ^ 52 := by decide
  have hset : signBit ≤ number.toBits.toNat := of_decide_eq_true hsigned
  have hlt : number.toBits.toNat < 2 ^ 64 := number.toBits.toNat_lt
  have hpattern : (UInt64.ofNat (magnitude number)).toNat = magnitude number := by
    rw [UInt64.toNat_ofNat']
    omega
  have hmagnitude : number.toBits.toNat = magnitude number + 2 ^ 63 := by
    rw [magnitude, hsize]
    omega
  rw [ofPattern, Bits.neg_ofBits (hpattern.symm ▸ hmagnitude) (hlimit ▸ hpattern.symm ▸ hfinite),
    Bits.ofBits_toBits]

theorem text_of_isSigned (hsigned : isSigned number = true)
    (hfinite : magnitude number < infinity) :
    text number = "-" ++ (shortest (magnitude number)).text := by
  simp [text, patternText, hsigned, Nat.ne_of_lt hfinite, Nat.not_lt_of_lt hfinite]

/-! ### Numbers made of patterns -/

theorem toNat_toBits_ofPattern (hle : pattern ≤ infinity) :
    (ofPattern pattern).toBits.toNat = pattern := by
  have hlimit : infinity = 2047 * 2 ^ 52 := by decide
  rcases Nat.lt_or_eq_of_le hle with hlt | rfl
  · have hpattern : (UInt64.ofNat pattern).toNat = pattern := by
      rw [UInt64.toNat_ofNat']
      omega
    have hfinite : (UInt64.ofNat pattern).toBitVec.toNat < 2047 * 2 ^ 52 :=
      hpattern.trans_lt (hlimit ▸ hlt)
    rw [ofPattern, Bits.toBits_ofBits (Bits.valid_of_lt hfinite), hpattern]
  · decide +kernel

theorem isSigned_ofPattern (hle : pattern ≤ infinity) :
    isSigned (ofPattern pattern) = false := by
  have hlimit : infinity = 2047 * 2 ^ 52 := by decide
  have hsize : signBit = 2 ^ 63 := by decide
  rw [isSigned, toNat_toBits_ofPattern hle, decide_eq_false_iff_not]
  omega

theorem magnitude_ofPattern (hle : pattern ≤ infinity) :
    magnitude (ofPattern pattern) = pattern := by
  rw [magnitude_of_not_isSigned (isSigned_ofPattern hle), toNat_toBits_ofPattern hle]

theorem text_ofPattern (hle : pattern ≤ infinity) :
    text (ofPattern pattern) = patternText pattern := by
  simp [text, magnitude_ofPattern hle, isSigned_ofPattern hle, Nat.not_lt_of_le hle]

/-- The number that lies beyond all finite ones. -/
@[irreducible]
def infinite : Float :=
  ofPattern infinity

theorem infinite_eq : infinite = ofPattern infinity := by
  rw [infinite]

theorem text_infinite : text infinite = "inf" := by
  rw [infinite, text_ofPattern (Nat.le_refl infinity)]
  exact if_pos rfl

/-- What a numeral denotes is made of a pattern, which may be that of infinity. -/
theorem exists_ofNumeral_eq (numeral : List Char) :
    ∃ pattern ≤ infinity, ofNumeral numeral = ofPattern pattern :=
  ⟨nearest (Decimal.ofNumeral numeral), Nat.min_le_right _ _, rfl⟩

end Lox.Number
