import Lox.Proofs.Lexing.Cuts
import Lox.Scan

/-!
# Scanning takes the longest lexeme everywhere

`Lexes` repeats the step that takes the longest lexeme until nothing is left. It collects a token
for each lexeme that stands for one, a diagnostic for a string that is never closed, and the token
of the end. For every text there is exactly one result, and it is that of the scan
(`lexes_iff_scan_eq`). A string that is never closed takes all that is left of a text, so it is the
last piece: a scan reports at most one diagnostic, and that one is on the last line (`errors_scan`).
-/

set_option autoImplicit false
set_option relaxedAutoImplicit false

namespace Lox

/-! ### Repeated steps -/

/-- The tokens and the diagnostics of a text that begins on the given line. Each is on the line
where its lexeme ends, which is further down by the newlines of the lexeme. -/
inductive Lexes : Nat → List Char → List Token → List Diagnostic → Prop
  | finish (line : Nat) : Lexes line [] [⟨.endOfInput, "", line⟩] []
  | layout {line : Nat} {text lexeme rest : List Char} {tokens : List Token}
      {errors : List Diagnostic} (htakes : Takes text ⟨.layout, lexeme⟩ rest)
      (hrest : Lexes (line + lexeme.count '\n') rest tokens errors) :
      Lexes line text tokens errors
  | token {line : Nat} {kind : TokenKind} {text lexeme rest : List Char} {tokens : List Token}
      {errors : List Diagnostic} (htakes : Takes text ⟨.token kind, lexeme⟩ rest)
      (hrest : Lexes (line + lexeme.count '\n') rest tokens errors) :
      Lexes line text (⟨kind, String.ofList lexeme, line + lexeme.count '\n'⟩ :: tokens) errors
  | openString {line : Nat} {text lexeme rest : List Char} {tokens : List Token}
      {errors : List Diagnostic} (htakes : Takes text ⟨.openString, lexeme⟩ rest)
      (hrest : Lexes (line + lexeme.count '\n') rest tokens errors) :
      Lexes line text tokens (.unterminatedString (line + lexeme.count '\n') :: errors)

/-! ### Scanning from some line on -/

/-- The scan of a text that begins on the given line. -/
def scanFrom (line : Nat) (text : List Char) : Scan :=
  { tokens := (placed line (pieces text)).filterMap PlacedPiece.token? ++
      [⟨.endOfInput, "", lineAfter line text⟩]
    errors := (placed line (pieces text)).filterMap PlacedPiece.error? }

theorem scan_eq_scanFrom (source : String) : scan source = scanFrom 1 source.toList :=
  rfl

theorem scanFrom_nil (line : Nat) : scanFrom line [] = ⟨[⟨.endOfInput, "", line⟩], []⟩ := by
  simp [scanFrom, pieces_nil, placed, lineAfter]

/-- A scan goes on with what its first step leaves. -/
theorem scanFrom_of_takes {text rest : List Char} {piece : Piece}
    (htakes : Takes text piece rest) (line : Nat) :
    scanFrom line text =
      ⟨(PlacedPiece.token? ⟨piece, lineAfter line piece.lexeme⟩).toList ++
          (scanFrom (lineAfter line piece.lexeme) rest).tokens,
        (PlacedPiece.error? ⟨piece, lineAfter line piece.lexeme⟩).toList ++
          (scanFrom (lineAfter line piece.lexeme) rest).errors⟩ := by
  have hline : lineAfter line text = lineAfter (lineAfter line piece.lexeme) rest := by
    rw [← htakes.append_eq, lineAfter_append]
  rw [scanFrom, pieces_of_takes htakes, hline, placed]
  cases hcontent : piece.content <;>
    simp [scanFrom, PlacedPiece.token?, PlacedPiece.error?, hcontent]

/-! ### The two agree -/

theorem Lexes.scanFrom_eq {line : Nat} {text : List Char} {tokens : List Token}
    {errors : List Diagnostic} (hlexes : Lexes line text tokens errors) :
    scanFrom line text = ⟨tokens, errors⟩ := by
  induction hlexes with
  | finish line => exact scanFrom_nil line
  | layout htakes _ ih =>
    rw [scanFrom_of_takes htakes]
    simp [ih, lineAfter, PlacedPiece.token?, PlacedPiece.error?]
  | token htakes _ ih =>
    rw [scanFrom_of_takes htakes]
    simp [ih, lineAfter, PlacedPiece.token?, PlacedPiece.error?]
  | openString htakes _ ih =>
    rw [scanFrom_of_takes htakes]
    simp [ih, lineAfter, PlacedPiece.token?, PlacedPiece.error?]

theorem lexes_scanFrom (line : Nat) (text : List Char) :
    Lexes line text (scanFrom line text).tokens (scanFrom line text).errors := by
  induction text using takes_induction generalizing line with
  | nil =>
    rw [scanFrom_nil]
    exact .finish line
  | step text rest piece htakes ih =>
    rw [scanFrom_of_takes htakes]
    obtain ⟨_ | kind | _, lexeme⟩ := piece
    · exact .layout htakes (ih _)
    · exact .token htakes (ih _)
    · exact .openString htakes (ih _)

/-- The scan of a source text is the result of taking the longest lexeme everywhere, and there is no
other such result. -/
theorem lexes_iff_scan_eq (source : String) (tokens : List Token) (errors : List Diagnostic) :
    Lexes 1 source.toList tokens errors ↔ scan source = ⟨tokens, errors⟩ := by
  rw [scan_eq_scanFrom]
  constructor
  · exact Lexes.scanFrom_eq
  · intro hscan
    have hlexes := lexes_scanFrom 1 source.toList
    rwa [hscan] at hlexes

/-- A point is part of a numeral only if a digit follows it. -/
example : (scan "1.5.x").tokens.map Token.lexeme = ["1.5", ".", "x", ""] := by
  decide +kernel

/-! ### What can be wrong with lexemes -/

theorem errors_scanFrom (line : Nat) (text : List Char) :
    (scanFrom line text).errors = [] ∨
      (scanFrom line text).errors = [.unterminatedString (lineAfter line text)] := by
  induction text using takes_induction generalizing line with
  | nil =>
    rw [scanFrom_nil]
    exact .inl rfl
  | step text rest piece htakes ih =>
    rw [scanFrom_of_takes htakes, ← htakes.append_eq, lineAfter_append]
    obtain ⟨_ | kind | _, lexeme⟩ := piece
    · exact ih _
    · exact ih _
    · obtain rfl := htakes.eq_nil_of_openString
      rw [scanFrom_nil]
      exact .inr rfl

/-- Nothing is wrong with the lexemes of a source text, or a string is open on its last line. -/
theorem errors_scan (source : String) :
    (scan source).errors = [] ∨
      (scan source).errors = [.unterminatedString (lineAfter 1 source.toList)] :=
  errors_scanFrom 1 source.toList

end Lox
