import Lox.Proofs.Blame
import Lox.Proofs.Lines

/-!
# The lines that a run writes

A diagnostic quotes the lexeme of the token that it blames, and a string may go over several lines.
Only one diagnostic of a run can quote such a string: the one that misses a parenthesis before it
(`newline_mem_text_iff_of_mem_reports`). Unless there is that one, what a run writes is a line for
each diagnostic (`lines_written_iff`).
-/

set_option autoImplicit false
set_option relaxedAutoImplicit false

namespace Lox

/-! ### Newlines in the text of a diagnostic -/

namespace Diagnostic

variable {diagnostic : Diagnostic}

/-- A parenthesis is missed before a string that goes over several lines, which is then blamed. -/
def BlamesLongString (diagnostic : Diagnostic) : Prop :=
  ∃ found characters, diagnostic = .unclosedParenthesis found ∧
    found.kind = .string characters ∧ '\n' ∈ found.lexeme.toList

theorem not_blamesLongString
    (hother : ∀ found : Token, diagnostic ≠ .unclosedParenthesis found) :
    ¬ diagnostic.BlamesLongString := by
  rintro ⟨found, _, heq, _⟩
  exact hother found heq

theorem newline_mem_place_iff :
    '\n' ∈ diagnostic.place.toList ↔
      ∃ token ∈ diagnostic.token?, token.kind.isEnd = false ∧ '\n' ∈ token.lexeme.toList := by
  unfold place
  cases diagnostic.token? with
  | none => simp
  | some token => cases hend : token.kind.isEnd <;> simp [hend]

theorem newline_mem_text_iff :
    '\n' ∈ diagnostic.text.toList ↔
      '\n' ∈ diagnostic.place.toList ∨ '\n' ∈ diagnostic.message.toList := by
  have hline : '\n' ∉ Nat.toDigits 10 diagnostic.line := fun hmem ↦
    absurd (Nat.isDigit_of_mem_toDigits (by decide) (by decide) hmem) (by decide)
  simp [text, hline]

/-- Every message but a note is a fixed text of one line. -/
theorem newline_not_mem_message
    (hnote : ∀ (node : Token) (note : String), diagnostic ≠ .unsupported node note) :
    '\n' ∉ diagnostic.message.toList := by
  cases diagnostic with
  | unsupported node note => exact absurd rfl (hnote node note)
  | _ => simp [message]

/-- Without a note, a diagnostic has a newline exactly if the lexeme that it quotes has one. -/
theorem newline_mem_text_iff_of_token? {token : Token} (htoken : diagnostic.token? = some token)
    (hnote : ∀ (node : Token) (note : String), diagnostic ≠ .unsupported node note) :
    '\n' ∈ diagnostic.text.toList ↔ token.kind.isEnd = false ∧ '\n' ∈ token.lexeme.toList := by
  rw [newline_mem_text_iff, or_iff_left (newline_not_mem_message hnote), newline_mem_place_iff,
    htoken]
  simp

end Diagnostic

/-! ### What a run reports -/

section Reports

variable {source : String} {diagnostic : Diagnostic}

theorem newline_mem_text_iff_of_mem_errors (hmem : diagnostic ∈ (scan source).errors) :
    '\n' ∈ diagnostic.text.toList ↔ diagnostic.BlamesLongString := by
  obtain ⟨line, rfl⟩ : ∃ line, diagnostic = .unterminatedString line := by
    rcases errors_scan source with hnone | hopen
    · rw [hnone] at hmem
      cases hmem
    · rw [hopen] at hmem
      exact ⟨_, List.mem_singleton.mp hmem⟩
  refine iff_of_false ?_ (Diagnostic.not_blamesLongString (by simp))
  rw [Diagnostic.newline_mem_text_iff, Diagnostic.newline_mem_place_iff]
  simp [Diagnostic.token?, Diagnostic.message]

theorem newline_mem_text_iff_of_parse
    (hparse : (Parser.ofTokens (scan source).tokens).parse.1 = .error diagnostic) :
    '\n' ∈ diagnostic.text.toList ↔ diagnostic.BlamesLongString := by
  obtain ⟨found, hcursor, hfound⟩ :=
    Parser.exists_found_of_parse_eq_error (Parser.isOver_ofTokens _) hparse
  rw [terminated_scan] at hcursor
  have hmem := List.mem_of_getElem? hcursor
  rcases hfound with rfl | ⟨rfl, hliteral⟩
  · rw [Diagnostic.newline_mem_text_iff_of_token? rfl (by simp)]
    constructor
    · rintro ⟨_, hnewline⟩
      obtain ⟨characters, hkind⟩ := exists_string_of_newline_mem hmem hnewline
      exact ⟨found, characters, rfl, hkind, hnewline⟩
    · rintro ⟨other, characters, heq, hkind, hnewline⟩
      cases heq
      exact ⟨by rw [hkind]; rfl, hnewline⟩
  · refine iff_of_false ?_ (Diagnostic.not_blamesLongString (by simp))
    rw [Diagnostic.newline_mem_text_iff_of_token? rfl (by simp)]
    rintro ⟨_, hnewline⟩
    obtain ⟨characters, hkind⟩ := exists_string_of_newline_mem hmem hnewline
    rw [hkind] at hliteral
    cases hliteral

theorem newline_mem_text_iff_of_evaluate {expression : Expr}
    (hparse : (Parser.ofTokens (scan source).tokens).parse.1 = .ok expression)
    (hfault : expression.evaluate = .error diagnostic) :
    '\n' ∈ diagnostic.text.toList ↔ diagnostic.BlamesLongString := by
  obtain ⟨spelling, hsubset, hstratified, hspells⟩ := exists_spelling_subset_of_parse_scan hparse
  obtain ⟨token, hmem, htoken, mark, hkind⟩ :=
    Expr.exists_symbol_of_evaluate_eq_error hspells hstratified hfault
  have hscanned : token ∈ (scan source).tokens := hsubset hmem
  have hblames := blamesOperands_of_parse_scan hparse hfault
  have hnote (node : Token) (note : String) : diagnostic ≠ .unsupported node note := by
    rintro rfl
    cases hblames
  have hother (found : Token) : diagnostic ≠ .unclosedParenthesis found := by
    rintro rfl
    cases hblames
  refine iff_of_false ?_ (Diagnostic.not_blamesLongString hother)
  rw [Diagnostic.newline_mem_text_iff_of_token? htoken hnote]
  rintro ⟨_, hnewline⟩
  obtain ⟨characters, hstring⟩ := exists_string_of_newline_mem hscanned hnewline
  rw [hkind] at hstring
  cases hstring

/-- What a run reports is on one line unless a parenthesis is missed before a long string. -/
theorem newline_mem_text_iff_of_mem_reports {hadError : Bool}
    (hmem : diagnostic ∈ (verdict hadError source).reports) :
    '\n' ∈ diagnostic.text.toList ↔ diagnostic.BlamesLongString := by
  obtain ⟨faults, hreports, hfaults⟩ := exists_reports_eq hadError source
  rw [hreports] at hmem
  rcases List.mem_append.mp hmem with herror | hfault
  · exact newline_mem_text_iff_of_mem_errors herror
  · rcases hfaults diagnostic hfault with hparse | ⟨expression, hparse, hevaluate⟩
    · exact newline_mem_text_iff_of_parse hparse
    · exact newline_mem_text_iff_of_evaluate hparse hevaluate

end Reports

/-! ### What a run writes -/

/-- A run writes the texts of what it reports, each with a newline behind it. These texts are the
lines of what it writes if and only if it misses no parenthesis before a string that goes over
several lines. -/
theorem lines_written_iff (source : String) (octets : Octets) (hadError : Bool) :
    let after := (Reporting.runWith (run source) (Reporter.unbounded octets hadError)).2
    let reports := (verdict hadError source).reports
    after.log.octets = octets ++ Octets.ofReports reports ∧
      ((Octets.ofReports reports).lines = reports.map (fun diagnostic ↦ .ofText diagnostic.text) ↔
        ∀ diagnostic ∈ reports, ¬ diagnostic.BlamesLongString) := by
  refine ⟨by rw [Reporting.runWith_run]; rfl, ?_⟩
  have hlines := @Octets.lines_flatMap_eq_map_iff
    ((verdict hadError source).reports.map Diagnostic.text)
  rw [List.flatMap_map, List.map_map] at hlines
  refine hlines.trans ?_
  rw [List.forall_mem_map]
  exact forall₂_congr fun diagnostic hmem ↦ not_congr (newline_mem_text_iff_of_mem_reports hmem)

/-- One diagnostic, but two lines. -/
theorem lines_written_of_long_string :
    (verdict false "(nil\"\n\"").reports.length = 1 ∧
      (Octets.ofReports (verdict false "(nil\"\n\"").reports).lines =
        [.ofText "[line 2] Error at '\"", .ofText "\"': Expected ')' after expression."] := by
  decide +kernel

end Lox
