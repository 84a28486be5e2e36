/-!
# Texts

Files and streams hold octets. A text is written to them in UTF-8, and octets are a text only if
they are valid UTF-8. Blanks are the characters with the Unicode property White_Space; a text is
trimmed of those at its ends.
-/

set_option autoImplicit false
set_option relaxedAutoImplicit false

namespace Lox

/-! ### Octets -/

abbrev Octets := List UInt8

namespace Octets

def ofText (text : String) : Octets :=
  text.toUTF8.data.toList

/-- The text that the octets are, if they are one. -/
def text? (octets : Octets) : Option String :=
  String.fromUTF8? ⟨octets.toArray⟩

/-- The octets of each line, without the newlines. What follows the last newline is a line only if
it is not empty. -/
def lines : Octets → List Octets
  | [] => []
  | octet :: rest =>
    if octet = '\n'.toUInt8 then [] :: lines rest
    else
      match lines rest with
      | [] => [[octet]]
      | line :: others => (octet :: line) :: others

@[simp] theorem ofText_append (first second : String) :
    ofText (first ++ second) = ofText first ++ ofText second := by
  simp [ofText, String.toUTF8]

theorem text?_ofText (text : String) : text? (ofText text) = some text := by
  have hoctets : (⟨(ofText text).toArray⟩ : ByteArray) = text.toByteArray := by
    simp [ofText, String.toUTF8]
  rw [text?, hoctets]
  exact dif_pos text.isValidUTF8

end Octets

namespace Text

/-! ### Blanks -/

/-- The ranges of code points with the property White_Space, first and last of each. -/
def blankRanges : List (Nat × Nat) :=
  [(0x9, 0xD), (0x20, 0x20), (0x85, 0x85), (0xA0, 0xA0), (0x1680, 0x1680), (0x2000, 0x200A),
    (0x2028, 0x2029), (0x202F, 0x202F), (0x205F, 0x205F), (0x3000, 0x3000)]

def isBlank (character : Char) : Bool :=
  blankRanges.any fun range ↦
    decide (range.1 ≤ character.toNat) && decide (character.toNat ≤ range.2)

/-- A text without the blanks at its ends. -/
def trim (text : List Char) : List Char :=
  ((text.dropWhile isBlank).reverse.dropWhile isBlank).reverse

end Text

end Lox
