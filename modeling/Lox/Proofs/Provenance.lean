import Lox.Proofs.Blame

/-!
# Where the diagnostics of a run come from

A run reports first that a string is open on the last line, if one is. Everything else that it
reports carries a token of the scan (`Diagnostic.Blames`): the first token that the parser has not
passed, or the operator of a node of the tree that was read, where the operands of that node have
values that the operator does not take. The lexeme of the token stands in the source text and ends
on the line that is reported (`run_reports_blame`).
-/

set_option autoImplicit false
set_option relaxedAutoImplicit false

namespace Lox

open Reporting

/-- The parser reads a tree from the first tokens of a row. It reads a node of that tree from the
stretch `spelling` of the row, which has `before` before it. -/
def Expr.IsReadBehind (node : Expr) (tokens before spelling : List Token) : Prop :=
  ∃ expression after later, (Parser.ofTokens tokens).parse.1 = .ok expression ∧
    node.StandsIn spelling expression before after ∧
    tokens = before ++ (spelling ++ after) ++ later

namespace Diagnostic

/-- How a diagnostic that carries a token comes about. An operator with which a node begins is read
in prefix position, since no operand ends before it. -/
inductive Blames (tokens : List Token) : Diagnostic → Prop
  | expectedExpression {found : Token}
      (hfound : tokens[(Parser.ofTokens tokens).parse.2.cursor]? = some found) :
      Blames tokens (.expectedExpression found)
  | unclosedParenthesis {found : Token}
      (hfound : tokens[(Parser.ofTokens tokens).parse.2.cursor]? = some found) :
      Blames tokens (.unclosedParenthesis found)
  | operands {node : Expr} {before spelling : List Token} {diagnostic : Diagnostic}
      (hnode : node.IsReadBehind tokens before spelling) (hbefore : ¬ EndsWithOperand before)
      (hfails : node.Fails spelling diagnostic) : Blames tokens diagnostic

variable {diagnostic : Diagnostic} {tokens : List Token}

theorem line_eq_of_token? {token : Token} (htoken : diagnostic.token? = some token) :
    diagnostic.line = token.line := by
  cases diagnostic <;> cases htoken <;> rfl

theorem Blames.exists_token (hblames : diagnostic.Blames tokens) :
    ∃ token ∈ tokens, diagnostic.token? = some token := by
  cases hblames with
  | expectedExpression hfound => exact ⟨_, List.mem_of_getElem? hfound, rfl⟩
  | unclosedParenthesis hfound => exact ⟨_, List.mem_of_getElem? hfound, rfl⟩
  | operands hnode _ hfails =>
    obtain ⟨_, after, later, _, _, rfl⟩ := hnode
    obtain ⟨token, hmem, htoken, _⟩ := hfails.exists_symbol
    exact ⟨token, by simp [hmem], htoken⟩

/-- The parser has no diagnostic for a note, and no operator fails with one. -/
theorem Blames.not_unsupported {node : Token} {note : String} :
    ¬ (unsupported node note).Blames tokens := by
  intro hblames
  cases hblames with
  | operands _ _ hfails => cases hfails

end Diagnostic

section Source

variable {source : String} {fault : Diagnostic}

theorem blames_of_parse_eq_error
    (hparse : (Parser.ofTokens (scan source).tokens).parse.1 = .error fault) :
    fault.Blames (scan source).tokens := by
  obtain ⟨found, hcursor, hfault⟩ :=
    Parser.exists_found_of_parse_eq_error (Parser.isOver_ofTokens _) hparse
  rw [terminated_scan] at hcursor
  rcases hfault with rfl | ⟨rfl, _⟩
  · exact .unclosedParenthesis hcursor
  · exact .expectedExpression hcursor

theorem blames_of_evaluate_eq_error {expression : Expr}
    (hparse : (Parser.ofTokens (scan source).tokens).parse.1 = .ok expression)
    (hevaluate : expression.evaluate = .error fault) : fault.Blames (scan source).tokens := by
  obtain ⟨_, next, later, htokens, _, hstratified, hspells, _⟩ :=
    exists_spelling_of_parse_scan hparse
  obtain ⟨node, spelling, before, after, rfl, hstands, hfails⟩ :=
    Expr.exists_fails_of_evaluate_eq_error hspells hstratified hevaluate
  exact .operands ⟨expression, after, next :: later, hparse, hstands, htokens⟩
    (hstands.not_endsWithOperand hstratified) hfails

/-- What stands at a place among the reports of a run is an open string, at the first place, or it
blames a token. -/
theorem unterminatedString_or_blames_of_getElem? {hadError : Bool} {index : Nat}
    (hreports : (verdict hadError source).reports[index]? = some fault) :
    index = 0 ∧ fault = .unterminatedString (lineAfter 1 source.toList) ∨
      fault.Blames (scan source).tokens := by
  obtain ⟨faults, heq, hfaults⟩ := exists_reports_eq hadError source
  have hblames (hmem : fault ∈ faults) : fault.Blames (scan source).tokens := by
    rcases hfaults fault hmem with hparse | ⟨expression, hparse, hevaluate⟩
    · exact blames_of_parse_eq_error hparse
    · exact blames_of_evaluate_eq_error hparse hevaluate
  rw [heq] at hreports
  rcases errors_scan source with herrors | herrors
  · rw [herrors, List.nil_append] at hreports
    exact .inr (hblames (List.mem_of_getElem? hreports))
  · rw [herrors, List.singleton_append] at hreports
    cases index with
    | zero =>
      cases hreports
      exact .inl ⟨rfl, rfl⟩
    | succ index =>
      rw [List.getElem?_cons_succ] at hreports
      exact .inr (hblames (List.mem_of_getElem? hreports))

end Source

/-- With any reporter, a run does no more than to report the diagnostics of its verdict and to give
the value of its verdict. The first of the diagnostics may be that a string is open on the last
line. Any other carries a token of the scan, the lexeme of which stands in the text and ends on the
line of the diagnostic, and it is the one that the parser has stopped at or the operator of a node
that was read and whose operands it does not take. No numeral is malformed and no node is without a
meaning. -/
theorem run_reports_blame (source : String) (reporter : Reporter) :
    let found := verdict reporter.hadError source
    let tokens := (scan source).tokens
    runWith (run source) reporter =
        runWith (do found.reports.forM report; return found.value?) reporter ∧
      ∀ index diagnostic, found.reports[index]? = some diagnostic →
        (index = 0 ∧ diagnostic = .unterminatedString (1 + source.toList.count '\n') ∨
          diagnostic.Blames tokens ∧ ∃ token ∈ tokens, diagnostic.token? = some token ∧
            diagnostic.line = token.line ∧ token.StandsIn source.toList) ∧
        (∀ line fault, diagnostic ≠ .malformedNumeral line fault) ∧
        ∀ node note, diagnostic ≠ .unsupported node note := by
  refine ⟨runWith_run_eq_report source reporter, fun index diagnostic hreports ↦ ?_⟩
  rcases unterminatedString_or_blames_of_getElem? hreports with ⟨hindex, rfl⟩ | hblames
  · exact ⟨.inl ⟨hindex, rfl⟩, by simp, by simp⟩
  · obtain ⟨token, hmem, htoken⟩ := hblames.exists_token
    refine ⟨.inr ⟨hblames, token, hmem, htoken, Diagnostic.line_eq_of_token? htoken,
      standsIn_of_mem_tokens hmem⟩, ?_, ?_⟩
    · rintro line numeralFault rfl
      cases htoken
    · rintro node note rfl
      exact Diagnostic.Blames.not_unsupported hblames

example : (verdict false "nil -\n-nil").reports = [.operandNotNumber ⟨.symbol .minus, "-", 2⟩] := by
  cbv

end Lox
