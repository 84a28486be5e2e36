import Lox.Proofs.Lexing.Origin
import Lox.Proofs.Parsing
import Lox.Proofs.Places
import Lox.Proofs.Verdict

/-!
# The tokens that diagnostics blame

A run reports what the scan finds wrong, what the parser finds wrong, or else what the evaluation
finds wrong (`exists_reports_eq`). The parser blames a token of the scan, and where an
expression is expected that token is no literal (`exists_found_of_parse_eq_error`). A tree that it
answers is spelled by the first tokens (`exists_spelling_of_parse_scan`). The evaluation blames an
operator, which is a symbol among the tokens that spell the tree
(`exists_symbol_of_evaluate_eq_error`).
-/

set_option autoImplicit false
set_option relaxedAutoImplicit false

namespace Lox

/-! ### What a run reports -/

/-- A run reports what is wrong with the lexemes, and then what the parser or the evaluation finds
wrong. -/
theorem exists_reports_eq (hadError : Bool) (source : String) :
    ∃ faults, (verdict hadError source).reports = (scan source).errors ++ faults ∧
      ∀ fault ∈ faults, (Parser.ofTokens (scan source).tokens).parse.1 = .error fault ∨
        ∃ expression, (Parser.ofTokens (scan source).tokens).parse.1 = .ok expression ∧
          expression.evaluate = .error fault := by
  simp only [verdict]
  split
  case h_1 fault hparse =>
    refine ⟨[fault], rfl, fun found hmem ↦ ?_⟩
    rw [List.mem_singleton.mp hmem]
    exact .inl hparse
  case h_2 expression hparse =>
    have hnothing : (scan source).errors = (scan source).errors ++ [] := (List.append_nil _).symm
    split
    case isTrue => exact ⟨[], hnothing, by simp⟩
    case isFalse =>
      split
      case h_1 => exact ⟨[], hnothing, by simp⟩
      case h_2 fault hevaluate =>
        refine ⟨[fault], rfl, fun found hmem ↦ ?_⟩
        rw [List.mem_singleton.mp hmem]
        exact .inr ⟨expression, hparse, hevaluate⟩

/-! ### Evaluation -/

/-- An evaluation that fails blames an operator of the tree. -/
theorem Expr.exists_symbol_of_evaluate_eq_error {expression : Expr} {tokens : List Token}
    (hspells : expression.Spells tokens) (hstratified : expression.Stratified)
    {fault : Diagnostic} (hfault : expression.evaluate = .error fault) :
    ∃ token ∈ tokens, fault.token? = some token ∧ ∃ mark, token.kind = .symbol mark := by
  obtain ⟨node, spelling, before, after, rfl, _, hfails⟩ :=
    exists_fails_of_evaluate_eq_error hspells hstratified hfault
  obtain ⟨token, hmem, hsymbol⟩ := hfails.exists_symbol
  exact ⟨token, List.mem_append_right _ (List.mem_append_left _ hmem), hsymbol⟩

/-! ### Parsing -/

theorem terminated_scan (source : String) :
    Parser.terminated (scan source).tokens = (scan source).tokens := by
  simp [Parser.terminated, scan, TokenKind.isEnd]

/-- The tree of a source text is spelled by the first tokens of its scan, and the token behind these
is no binary operator. -/
theorem exists_spelling_of_parse_scan {source : String} {expression : Expr}
    (hparse : (Parser.ofTokens (scan source).tokens).parse.1 = .ok expression) :
    ∃ spelling next later, (scan source).tokens = spelling ++ next :: later ∧
      (Parser.ofTokens (scan source).tokens).parse.2.cursor = spelling.length ∧
      expression.Stratified ∧ expression.Spells spelling ∧ next.kind.binaryLevel? = none := by
  obtain ⟨before, spelling, next, later, hterminated, hlength, hcursor, hstratified, hspells, hnext,
    _⟩ := Parser.exists_spelling_of_parse_eq_ok (Parser.isOver_ofTokens _) hparse
  rw [terminated_scan, List.eq_nil_of_length_eq_zero hlength, List.nil_append] at hterminated
  rw [hlength] at hcursor
  exact ⟨spelling, next, later, hterminated, hcursor.trans (Nat.zero_add _), hstratified, hspells,
    hnext⟩

/-- Once a source text is parsed, nothing but operands can go wrong. -/
theorem blamesOperands_of_parse_scan {source : String} {expression : Expr} {fault : Diagnostic}
    (hparse : (Parser.ofTokens (scan source).tokens).parse.1 = .ok expression)
    (hfault : expression.evaluate = .error fault) : fault.blamesOperands = true := by
  obtain ⟨_, _, _, _, _, hstratified, hspells, _⟩ := exists_spelling_of_parse_scan hparse
  exact Expr.blamesOperands_of_evaluate hspells hstratified hfault

/-- What is answered is spelled with tokens of the scan. -/
theorem exists_spelling_subset_of_parse_scan {source : String} {expression : Expr}
    (hparse : (Parser.ofTokens (scan source).tokens).parse.1 = .ok expression) :
    ∃ spelling, spelling ⊆ (scan source).tokens ∧ expression.Stratified ∧
      expression.Spells spelling := by
  obtain ⟨spelling, _, _, htokens, _, hstratified, hspells, _⟩ :=
    exists_spelling_of_parse_scan hparse
  exact ⟨spelling, htokens ▸ List.subset_append_left _ _, hstratified, hspells⟩

/-- A parse that fails blames the first token that it has not passed. -/
theorem Parser.exists_found_of_parse_eq_error {parser : Parser} {tokens : List Token}
    (hover : parser.IsOver tokens) {fault : Diagnostic} (hfault : parser.parse.1 = .error fault) :
    ∃ found, (terminated tokens)[parser.parse.2.cursor]? = some found ∧
      (fault = .unclosedParenthesis found ∨
        fault = .expectedExpression found ∧ found.kind.literal? = none) := by
  obtain ⟨reading, before, taken, found, beyond, hterminated, hlength, -, hrefused, hanswer,
    hcursor⟩ := exists_parse_eq hover
  rw [hfault] at hanswer
  rw [hcursor, ← hlength]
  refine ⟨found, getElem?_terminated hterminated, ?_⟩
  obtain ⟨_ | operand, pending, _ | ⟨outer, enclosing⟩⟩ := reading
  · cases hanswer
    exact .inr ⟨rfl, Reading.literal?_of_refused hrefused⟩
  · cases hanswer
    exact .inr ⟨rfl, Reading.literal?_of_refused hrefused⟩
  · cases hanswer
  · cases hanswer
    exact .inl rfl

/-- The token at which a failed parse stops is the one that its fault names. -/
theorem Parser.exists_token?_of_parse_eq_error {parser : Parser} {tokens : List Token}
    (hover : parser.IsOver tokens) {fault : Diagnostic} (hfault : parser.parse.1 = .error fault) :
    ∃ token : Token, (terminated tokens)[parser.parse.2.cursor]? = some token ∧
      fault.token? = some token := by
  obtain ⟨token, htoken, rfl | ⟨rfl, _⟩⟩ := exists_found_of_parse_eq_error hover hfault
  · exact ⟨token, htoken, rfl⟩
  · exact ⟨token, htoken, rfl⟩

end Lox
