import Lox.Proofs.Lexing.MaximalMunch
import Lox.Proofs.Lexing.Separation

/-!
# The scan of joined texts

If no string is open at the end of a text, a separator ends its scan: what is behind the separator
is scanned as if it stood alone, on lines further down (`scan_append_separator`). A newline is a
separator behind any such text, and the other blanks are where the text does not end in a comment.
The two halves of this are that nothing is carried over the separator
(`scanFrom_append_separator`) and that a scan from a later line is the same scan further down
(`scanFrom_add`).
-/

set_option autoImplicit false
set_option relaxedAutoImplicit false

namespace Lox

variable {text : List Char}

/-! ### Lines further down -/

/-- A string that is open at the end of a text is reported on the last line, and nothing else. -/
theorem errors_scanFrom_of_not_isClosed (hopen : ¬ IsClosed text) (line : Nat) :
    (scanFrom line text).errors = [.unterminatedString (lineAfter line text)] :=
  (errors_scanFrom line text).resolve_left (mt errors_scanFrom_eq_nil_iff.mp hopen)

theorem lineAfter_add (line distance : Nat) (text : List Char) :
    lineAfter (line + distance) text = lineAfter line text + distance :=
  Nat.add_right_comm line distance _

theorem errors_scanFrom_add (line distance : Nat) (text : List Char) :
    (scanFrom (line + distance) text).errors =
      (scanFrom line text).errors.map (Diagnostic.mapLine (· + distance)) := by
  by_cases hclosed : IsClosed text
  · have hnone (line : Nat) : (scanFrom line text).errors = [] :=
      errors_scanFrom_eq_nil_iff.mpr hclosed
    rw [hnone, hnone, List.map_nil]
  · rw [errors_scanFrom_of_not_isClosed hclosed, errors_scanFrom_of_not_isClosed hclosed,
      lineAfter_add]
    rfl

/-- The scan of a text that begins further down is the one that it has anyway, further down. -/
theorem scanFrom_add (line distance : Nat) (text : List Char) :
    scanFrom (line + distance) text =
      ⟨(scanFrom line text).tokens.map (Token.mapLine (· + distance)),
        (scanFrom line text).errors.map (Diagnostic.mapLine (· + distance))⟩ := by
  have htokens : (scanFrom (line + distance) text).tokens =
      (scanFrom line text).tokens.map (Token.mapLine (· + distance)) := by
    rw [tokens_scanFrom, tokens_scanFrom, tokensFrom_add, lineAfter_add, List.map_append]
    rfl
  rw [← htokens, ← errors_scanFrom_add]

/-! ### Over a separator -/

variable {separator : Char}

theorem errors_scanFrom_append_separator (hclosed : IsClosed text) (hblank : IsBlank separator)
    (hcomment : separator = '\n' ∨ ¬ EndsInComment text) (line : Nat) (later : List Char) :
    (scanFrom line (text ++ separator :: later)).errors =
      (scanFrom (lineAfter line (text ++ [separator])) later).errors := by
  have hwhole := isClosed_append_separator_iff hclosed hblank hcomment later
  by_cases hlater : IsClosed later
  · rw [errors_scanFrom_eq_nil_iff.mpr hlater, errors_scanFrom_eq_nil_iff.mpr (hwhole.mpr hlater)]
  · rw [errors_scanFrom_of_not_isClosed hlater,
      errors_scanFrom_of_not_isClosed (mt hwhole.mp hlater), ← lineAfter_append,
      List.append_assoc, List.singleton_append]

/-- The tokens behind a separator come after those before it, and what is wrong is all behind it. -/
theorem scanFrom_append_separator (hclosed : IsClosed text) (hblank : IsBlank separator)
    (hcomment : separator = '\n' ∨ ¬ EndsInComment text) (line : Nat) (later : List Char) :
    scanFrom line (text ++ separator :: later) =
      ⟨tokensFrom line text ++ (scanFrom (lineAfter line (text ++ [separator])) later).tokens,
        (scanFrom (lineAfter line (text ++ [separator])) later).errors⟩ := by
  have hline : lineAfter line (text ++ separator :: later) =
      lineAfter (lineAfter line (text ++ [separator])) later := by
    rw [← lineAfter_append, List.append_assoc, List.singleton_append]
  have htokens : (scanFrom line (text ++ separator :: later)).tokens =
      tokensFrom line text ++ (scanFrom (lineAfter line (text ++ [separator])) later).tokens := by
    rw [tokens_scanFrom, tokens_scanFrom, tokensFrom_append_separator hclosed hblank hcomment,
      hline, List.append_assoc]
  rw [← htokens, ← errors_scanFrom_append_separator hclosed hblank hcomment]

/-- If nothing is wrong with the first text, the tokens of the whole are those of the first text
without its end and then those of the second, and what is wrong is what is wrong with the second.
All of the second is further down, by the newlines that stand before it. -/
theorem scan_append_separator {first : String} (herrors : (scan first).errors = [])
    (hblank : IsBlank separator) (hcomment : separator = '\n' ∨ ¬ EndsInComment first.toList)
    (second : String) :
    let newlines := (first ++ String.singleton separator).toList.count '\n'
    scan (first ++ String.singleton separator ++ second) =
      ⟨(scan first).tokens.dropLast ++ (scan second).tokens.map (Token.mapLine (· + newlines)),
        (scan second).errors.map (Diagnostic.mapLine (· + newlines))⟩ := by
  intro newlines
  have hclosed : IsClosed first.toList := errors_scanFrom_eq_nil_iff.mp herrors
  have hdropLast : (scan first).tokens.dropLast = tokensFrom 1 first.toList := by
    rw [scan_eq_scanFrom, tokens_scanFrom, List.dropLast_concat]
  have htext : (first ++ String.singleton separator ++ second).toList =
      first.toList ++ separator :: second.toList := by simp
  have hline : lineAfter 1 (first.toList ++ [separator]) = 1 + newlines := by
    simp [lineAfter, newlines]
  rw [scan_eq_scanFrom, htext, scanFrom_append_separator hclosed hblank hcomment, hline,
    scanFrom_add, hdropLast]
  rfl

/-- The comment ends where the newline is, and the string that is open in the second text is open on
the last line of the whole. -/
theorem scan_append_separator_openString :
    (scan "!nil // c").errors = [] ∧ IsBlank '\n' ∧
      scan ("!nil // c" ++ String.singleton '\n' ++ "/\n\"d") =
        ⟨[⟨.symbol .bang, "!", 1⟩, ⟨.keyword .nilWord, "nil", 1⟩, ⟨.symbol .slash, "/", 2⟩,
            ⟨.endOfInput, "", 3⟩],
          [.unterminatedString 3]⟩ := by
  have herrors : (scan "!nil // c").errors = [] := by cbv
  have hblank : IsBlank '\n' := by decide
  have hscan := scan_append_separator herrors hblank (.inl rfl) "/\n\"d"
  refine ⟨herrors, hblank, hscan.trans ?_⟩
  cbv

end Lox
