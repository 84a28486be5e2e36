import Lox.Diagnostic

/-!
# Scanning

A source text falls into pieces: blanks, newlines and comments, which are layout, the lexemes of
tokens, and at the end perhaps a string that is never closed. `cut` takes the first piece, always
the longest of its kind, and `pieces` takes them all. Nothing is lost between pieces:
`cut_append` says so for one cut and `flatMap_pieces` for the whole text.

Scanning keeps the pieces that are tokens, each with the line on which it ends, adds a token for the
end of the text, and reports a string that is never closed. Lines are counted from one.
-/

set_option autoImplicit false
set_option relaxedAutoImplicit false

namespace Lox

/-! ### Pieces -/

/-- What a stretch of a source text is. -/
inductive Content
  | layout
  | token (kind : TokenKind)
  | openString
deriving BEq, Inhabited

/-- A stretch of a source text with what it is. -/
structure Piece where
  content : Content
  lexeme : List Char
deriving BEq, Inhabited

namespace Piece

/-! ### Classes of characters -/

/-- Letters are the 52 unaccented ones, and the underscore counts as one. -/
def isWordStart (character : Char) : Bool :=
  character.isAlpha || character == '_'

def isWordPart (character : Char) : Bool :=
  character.isAlphanum || character == '_'

/-- All but the character that closes a string. -/
def isStringPart (character : Char) : Bool :=
  character != '"'

/-- All but the character that ends a comment. -/
def isCommentPart (character : Char) : Bool :=
  character != '\n'

/-! ### The first piece -/

/-- The first piece of a text that begins with a quote, given what follows the quote. A string
without a second quote takes all that is left. -/
def cutString (text : List Char) : Piece × List Char :=
  let body := text.takeWhile isStringPart
  match text.dropWhile isStringPart with
  | [] => (⟨.openString, '"' :: body⟩, [])
  | _ :: rest => (⟨.token (.string (String.ofList body)), '"' :: body ++ ['"']⟩, rest)

/-- The first piece of a text that begins with a word. -/
def cutWord (text : List Char) : Piece × List Char :=
  let word := text.takeWhile isWordPart
  (⟨.token (.ofWord (String.ofList word)), word⟩, text.dropWhile isWordPart)

/-- The point and the digits at the beginning of a text; none if no digit follows the point. -/
def leadingFraction : List Char → List Char
  | '.' :: text =>
    match text.takeWhile Char.isDigit with
    | [] => []
    | digits => '.' :: digits
  | _ => []

/-- The first piece of a text that begins with a numeral. -/
def cutNumeral (text : List Char) : Piece × List Char :=
  let fraction := leadingFraction (text.dropWhile Char.isDigit)
  let numeral := text.takeWhile Char.isDigit ++ fraction
  (⟨.token (.number (Number.ofNumeral numeral)), numeral⟩,
    (text.dropWhile Char.isDigit).drop fraction.length)

/-- The first piece of a text that begins with a comment. The newline is not part of it. -/
def cutComment (text : List Char) : Piece × List Char :=
  (⟨.layout, text.takeWhile isCommentPart⟩, text.dropWhile isCommentPart)

/-- The first piece of a text that begins with a symbol, given what follows its first character. -/
def cutSymbol (symbol : Symbol) (text : List Char) : Piece × List Char :=
  match symbol.withEqual?, text with
  | some longer, '=' :: rest => (⟨.token (.symbol longer), longer.characters⟩, rest)
  | _, _ => (⟨.token (.symbol symbol), symbol.characters⟩, text)

/-- The first piece of a nonempty text and what follows it. A character with which no piece can
begin is a piece by itself. -/
def cut (head : Char) (tail : List Char) : Piece × List Char :=
  if head.isWhitespace then (⟨.layout, [head]⟩, tail)
  else if head = '"' then cutString tail
  else if head.isDigit then cutNumeral (head :: tail)
  else if isWordStart head then cutWord (head :: tail)
  else if head = '/' ∧ tail.head? = some '/' then cutComment (head :: tail)
  else
    match Symbol.ofChar? head with
    | some symbol => cutSymbol symbol tail
    | none => (⟨.token .unrecognized, [head]⟩, tail)

/-! ### Nothing is lost -/

private theorem eq_quote_of_dropWhile {text rest : List Char} {character : Char}
    (hrest : text.dropWhile isStringPart = character :: rest) : character = '"' := by
  have hhead := List.head?_dropWhile_not isStringPart text
  simpa [hrest, isStringPart] using hhead

theorem cutString_append (text : List Char) :
    (cutString text).1.lexeme ++ (cutString text).2 = '"' :: text := by
  have hall := List.takeWhile_append_dropWhile (p := isStringPart) (l := text)
  unfold cutString
  split
  case h_1 hnone => simpa [hnone] using hall
  case h_2 hsome =>
    rw [hsome, eq_quote_of_dropWhile hsome] at hall
    simpa using hall

theorem cutWord_append (text : List Char) : (cutWord text).1.lexeme ++ (cutWord text).2 = text :=
  List.takeWhile_append_dropWhile

theorem leadingFraction_append (text : List Char) :
    leadingFraction text ++ text.drop (leadingFraction text).length = text := by
  unfold leadingFraction
  split
  case h_1 text =>
    split
    case h_1 => rfl
    case h_2 digits hdigits =>
      have hleading : text.takeWhile Char.isDigit <+: text := List.takeWhile_prefix _
      simpa using List.prefix_iff_eq_append.mp hleading
  case h_2 => rfl

theorem cutNumeral_append (text : List Char) :
    (cutNumeral text).1.lexeme ++ (cutNumeral text).2 = text := by
  simp only [cutNumeral, List.append_assoc, leadingFraction_append]
  exact List.takeWhile_append_dropWhile

theorem cutComment_append (text : List Char) :
    (cutComment text).1.lexeme ++ (cutComment text).2 = text :=
  List.takeWhile_append_dropWhile

theorem cutSymbol_append (symbol : Symbol) (text : List Char) :
    (cutSymbol symbol text).1.lexeme ++ (cutSymbol symbol text).2 = symbol.characters ++ text := by
  unfold cutSymbol
  split
  case h_1 longer rest hlonger => simp [Symbol.characters_of_withEqual? hlonger]
  case h_2 => rfl

theorem cut_append (head : Char) (tail : List Char) :
    (cut head tail).1.lexeme ++ (cut head tail).2 = head :: tail := by
  unfold cut
  split
  case isTrue => rfl
  case isFalse =>
    split
    case isTrue hquote => rw [hquote]; exact cutString_append tail
    case isFalse =>
      split
      case isTrue => exact cutNumeral_append _
      case isFalse =>
        split
        case isTrue => exact cutWord_append _
        case isFalse =>
          split
          case isTrue => exact cutComment_append _
          case isFalse =>
            split
            case h_1 symbol hsymbol =>
              rw [cutSymbol_append, Symbol.characters_of_ofChar? hsymbol]
              rfl
            case h_2 => rfl

/-! ### No piece is empty -/

theorem lexeme_cut_ne_nil (head : Char) (tail : List Char) : (cut head tail).1.lexeme ≠ [] := by
  unfold cut
  split
  case isTrue => simp
  case isFalse =>
    split
    case isTrue =>
      unfold cutString
      split <;> simp
    case isFalse =>
      split
      case isTrue hdigit => simp [cutNumeral, hdigit]
      case isFalse =>
        split
        case isTrue hword =>
          have hpart : isWordPart head = true := by
            simp only [isWordStart, isWordPart, Char.isAlphanum, Bool.or_eq_true] at hword ⊢
            exact hword.imp_left Or.inl
          simp [cutWord, hpart]
        case isFalse =>
          split
          case isTrue hslash =>
            have hpart : isCommentPart '/' = true := by decide
            simp [cutComment, hslash.1, hpart]
          case isFalse =>
            split
            case h_1 symbol _ =>
              unfold cutSymbol
              split <;> exact Symbol.characters_ne_nil _
            case h_2 => simp

theorem length_cut_le (head : Char) (tail : List Char) :
    (cut head tail).2.length ≤ tail.length := by
  have hsum := congrArg List.length (cut_append head tail)
  have hpos := List.length_pos_iff.mpr (lexeme_cut_ne_nil head tail)
  rw [List.length_append, List.length_cons] at hsum
  omega

end Piece

/-! ### All pieces -/

/-- The pieces of a text, in their order. -/
def pieces : List Char → List Piece
  | [] => []
  | head :: tail => (Piece.cut head tail).1 :: pieces (Piece.cut head tail).2
termination_by text => text.length
decreasing_by exact Nat.lt_succ_of_le (Piece.length_cut_le head tail)

theorem pieces_nil : pieces [] = [] := by
  rw [pieces]

theorem pieces_cons (head : Char) (tail : List Char) :
    pieces (head :: tail) = (Piece.cut head tail).1 :: pieces (Piece.cut head tail).2 := by
  rw [pieces]

theorem flatMap_pieces (text : List Char) : (pieces text).flatMap Piece.lexeme = text := by
  fun_induction pieces text with
  | case1 => rfl
  | case2 head tail ih => rw [List.flatMap_cons, ih, Piece.cut_append]

/-! ### Lines and scans -/

/-- The line on which a text ends that begins on the given line. -/
def lineAfter (line : Nat) (text : List Char) : Nat :=
  line + text.count '\n'

/-- A piece with the line on which it ends. -/
structure PlacedPiece where
  piece : Piece
  line : Nat

/-- Pieces in a row, the first of which begins on the given line. -/
def placed (line : Nat) : List Piece → List PlacedPiece
  | [] => []
  | piece :: rest =>
    ⟨piece, lineAfter line piece.lexeme⟩ :: placed (lineAfter line piece.lexeme) rest

/-- The line after one text is the line on which the next begins. -/
theorem lineAfter_append (line : Nat) (first second : List Char) :
    lineAfter line (first ++ second) = lineAfter (lineAfter line first) second := by
  simp [lineAfter, Nat.add_assoc]

theorem placed_append (line : Nat) (first second : List Piece) :
    placed line (first ++ second) =
      placed line first ++ placed (lineAfter line (first.flatMap Piece.lexeme)) second := by
  induction first generalizing line with
  | nil => simp [placed, lineAfter]
  | cons piece rest ih => simp [placed, ih, lineAfter_append]

namespace PlacedPiece

def token? (placedPiece : PlacedPiece) : Option Token :=
  match placedPiece.piece.content with
  | .token kind => some ⟨kind, String.ofList placedPiece.piece.lexeme, placedPiece.line⟩
  | _ => none

def error? (placedPiece : PlacedPiece) : Option Diagnostic :=
  match placedPiece.piece.content with
  | .openString => some (.unterminatedString placedPiece.line)
  | _ => none

end PlacedPiece

/-- The tokens of a source text and what is wrong with its lexemes. -/
structure Scan where
  tokens : List Token
  errors : List Diagnostic
deriving BEq

def scan (source : String) : Scan :=
  let text := source.toList
  let row := placed 1 (pieces text)
  { tokens := row.filterMap PlacedPiece.token? ++ [⟨.endOfInput, "", lineAfter 1 text⟩]
    errors := row.filterMap PlacedPiece.error? }

end Lox
