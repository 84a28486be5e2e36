import Lox.Proofs.Composition
import Lox.Proofs.Provenance
import Lox.Proofs.Reading.Relocation

/-!
# Layout

The layout of a source text decides on which lines its tokens are, and the lines of tokens decide
nothing but the numbers in diagnostics. Two rows of tokens that are the same but for lines are one
row whose tokens stand on two lines at once (`exists_common_row`), and the same goes for trees
(`Expr.exists_common`). This row is parsed and evaluated once, and what it comes to is moved to the
one line or to the other of each token. So the two rows come to the same value or blame the tokens
at the same place (`agree_up_to_lines`).
-/

set_option autoImplicit false
set_option relaxedAutoImplicit false

namespace Lox

open Reporting

variable {change : Nat → Nat}

/-! ### Tokens on two lines at once -/

/-- The first of the two lines that a number stands for. -/
def firstLine (lines : Nat) : Nat :=
  lines.unpair.1

/-- The second of the two lines that a number stands for. -/
def secondLine (lines : Nat) : Nat :=
  lines.unpair.2

theorem Token.exists_common {token other : Token}
    (hsame : token.withoutLine = other.withoutLine) :
    ∃ common : Token, common.mapLine firstLine = token ∧ common.mapLine secondLine = other := by
  obtain ⟨hkind, hlexeme⟩ := withoutLine_eq_iff.mp hsame
  refine ⟨⟨token.kind, token.lexeme, Nat.pair token.line other.line⟩, ?_, ?_⟩
  · simp [mapLine, firstLine]
  · simp [mapLine, secondLine, hkind, hlexeme]

theorem exists_common_row {first second : List Token}
    (hsame : first.map Token.withoutLine = second.map Token.withoutLine) :
    ∃ row : List Token, row.map (Token.mapLine firstLine) = first ∧
      row.map (Token.mapLine secondLine) = second := by
  induction first generalizing second with
  | nil => exact ⟨[], rfl, (List.map_eq_nil_iff.mp hsame.symm).symm⟩
  | cons token rest ih =>
    obtain ⟨other, later, rfl, htoken, hrest⟩ := List.map_eq_cons_iff.mp hsame.symm
    obtain ⟨common, rfl, rfl⟩ := Token.exists_common htoken.symm
    obtain ⟨row, rfl, rfl⟩ := ih hrest.symm
    exact ⟨common :: row, rfl, rfl⟩

namespace Expr

theorem exists_common {expression other : Expr}
    (hsame : expression.withoutLines = other.withoutLines) :
    ∃ common : Expr, common.mapLines firstLine = expression ∧
      common.mapLines secondLine = other := by
  induction expression generalizing other with
  | literal value =>
    cases other <;> cases hsame
    exact ⟨.literal value, rfl, rfl⟩
  | group inner ih =>
    cases other with
    | group otherInner =>
      obtain ⟨common, rfl, rfl⟩ := ih (Expr.group.inj hsame)
      exact ⟨.group common, rfl, rfl⟩
    | _ => cases hsame
  | unary operator operand ih =>
    cases other with
    | unary otherOperator otherOperand =>
      obtain ⟨hoperator, hoperand⟩ := Expr.unary.inj hsame
      obtain ⟨token, rfl, rfl⟩ := Token.exists_common hoperator
      obtain ⟨common, rfl, rfl⟩ := ih hoperand
      exact ⟨.unary token common, rfl, rfl⟩
    | _ => cases hsame
  | binary operator left right ihleft ihright =>
    cases other with
    | binary otherOperator otherLeft otherRight =>
      obtain ⟨hoperator, hleft, hright⟩ := Expr.binary.inj hsame
      obtain ⟨token, rfl, rfl⟩ := Token.exists_common hoperator
      obtain ⟨commonLeft, rfl, rfl⟩ := ihleft hleft
      obtain ⟨commonRight, rfl, rfl⟩ := ihright hright
      exact ⟨.binary token commonLeft commonRight, rfl, rfl⟩
    | _ => cases hsame
  | assign name assigned ih =>
    cases other with
    | assign otherName otherAssigned =>
      obtain ⟨hname, hassigned⟩ := Expr.assign.inj hsame
      obtain ⟨token, rfl, rfl⟩ := Token.exists_common hname
      obtain ⟨common, rfl, rfl⟩ := ih hassigned
      exact ⟨.assign token common, rfl, rfl⟩
    | _ => cases hsame

theorem withoutLines_mapLines (expression : Expr) :
    (expression.mapLines change).withoutLines = expression.withoutLines := by
  induction expression with
  | literal value => rfl
  | group inner ih => exact congrArg Expr.group ih
  | unary operator operand ih => exact congrArg (Expr.unary _) ih
  | binary operator left right ihleft ihright => exact congrArg₂ (Expr.binary _) ihleft ihright
  | assign name assigned ih => exact congrArg (Expr.assign _) ih

end Expr

/-! ### Outcomes that agree -/

/-- Both outcomes are values, and the one relation holds between them, or both are faults, and the
other relation does. -/
def Agree {α : Type} (alike : α → α → Prop) (blamed : Diagnostic → Diagnostic → Prop) :
    Except Diagnostic α → Except Diagnostic α → Prop
  | .ok value, .ok other => alike value other
  | .error fault, .error other => blamed fault other
  | _, _ => False

theorem Agree.of_blamed {α : Type} {alike : α → α → Prop}
    {blamed wider : Diagnostic → Diagnostic → Prop} {outcome other : Except Diagnostic α}
    (hagree : Agree alike blamed outcome other)
    (hwider : ∀ fault other, blamed fault other → wider fault other) :
    Agree alike wider outcome other := by
  cases outcome with
  | ok value =>
    cases other with
    | ok otherValue => exact hagree
    | error fault => exact hagree.elim
  | error fault =>
    cases other with
    | ok otherValue => exact hagree.elim
    | error otherFault => exact hwider _ _ hagree

namespace Diagnostic

/-- The diagnostics blame the tokens at the same place of two rows, and they are the same but for
the lines of these tokens. -/
def BlameAlike (first second : List Token) (index : Nat) (diagnostic other : Diagnostic) : Prop :=
  diagnostic.withoutLine = other.withoutLine ∧
    ∃ token otherToken, first[index]? = some token ∧ second[index]? = some otherToken ∧
      diagnostic.token? = some token ∧ other.token? = some otherToken

/-- The texts of the diagnostics are the same but for the lines that they give, and these are the
lines of the tokens at the same place of two rows. -/
def WordedAlike (first second : List Token) (index : Nat) (diagnostic other : Diagnostic) : Prop :=
  ∃ (token otherToken : Token) (remark : String),
    first[index]? = some token ∧ second[index]? = some otherToken ∧
      diagnostic.text = "[line " ++ toString token.line ++ "] Error" ++ remark ∧
      other.text = "[line " ++ toString otherToken.line ++ "] Error" ++ remark

theorem withoutLine_mapLine (diagnostic : Diagnostic) :
    (diagnostic.mapLine change).withoutLine = diagnostic.withoutLine := by
  cases diagnostic <;> rfl

theorem token?_mapLine (diagnostic : Diagnostic) :
    (diagnostic.mapLine change).token? = diagnostic.token?.map (Token.mapLine change) := by
  cases diagnostic <;> rfl

/-- A diagnostic that blames a token of a row blames it alike wherever the row is moved. -/
theorem blameAlike_mapLine {row : List Token} {index : Nat} {found : Token}
    {diagnostic : Diagnostic} (hfound : row[index]? = some found)
    (htoken : diagnostic.token? = some found) (first second : Nat → Nat) :
    BlameAlike (row.map (Token.mapLine first)) (row.map (Token.mapLine second)) index
      (diagnostic.mapLine first) (diagnostic.mapLine second) := by
  refine ⟨?_, found.mapLine first, found.mapLine second, ?_, ?_, ?_, ?_⟩
  · rw [withoutLine_mapLine, withoutLine_mapLine]
  · rw [List.getElem?_map, hfound, Option.map_some]
  · rw [List.getElem?_map, hfound, Option.map_some]
  · rw [token?_mapLine, htoken, Option.map_some]
  · rw [token?_mapLine, htoken, Option.map_some]

/-- All that a text says besides the line. -/
def remark (diagnostic : Diagnostic) : String :=
  diagnostic.place ++ ": " ++ diagnostic.message

theorem remark_withoutLine (diagnostic : Diagnostic) :
    diagnostic.withoutLine.remark = diagnostic.remark := by
  cases diagnostic <;> rfl

theorem text_eq_of_token? {diagnostic : Diagnostic} {token : Token}
    (htoken : diagnostic.token? = some token) :
    diagnostic.text = "[line " ++ toString token.line ++ "] Error" ++ diagnostic.remark := by
  rw [text, remark, line_eq_of_token? htoken, ← String.append_assoc, ← String.append_assoc]

theorem BlameAlike.wordedAlike {first second : List Token} {index : Nat}
    {diagnostic other : Diagnostic} (hblame : BlameAlike first second index diagnostic other) :
    WordedAlike first second index diagnostic other := by
  obtain ⟨hsame, token, otherToken, hplace, hotherPlace, htoken, hother⟩ := hblame
  have hremark : other.remark = diagnostic.remark := by
    rw [← remark_withoutLine, ← hsame, remark_withoutLine]
  refine ⟨token, otherToken, diagnostic.remark, hplace, hotherPlace, text_eq_of_token? htoken, ?_⟩
  rw [text_eq_of_token? hother, hremark]

end Diagnostic

open Diagnostic

/-! ### Trees -/

theorem Token.token?_of_applyUnary {token : Token} {operand : Value} {fault : Diagnostic}
    (hfault : token.applyUnary operand = .error fault) : fault.token? = some token := by
  unfold applyUnary at hfault
  split at hfault
  case h_1 operator _ =>
    obtain ⟨_, _, rfl⟩ := UnaryOperator.apply_eq_error hfault
    rfl
  case h_2 =>
    cases hfault
    rfl

theorem Token.token?_of_applyBinary {token : Token} {left right : Value} {fault : Diagnostic}
    (hfault : token.applyBinary left right = .error fault) : fault.token? = some token := by
  unfold applyBinary at hfault
  split at hfault
  case h_1 operator _ => exact BinaryOperator.token?_of_apply hfault
  case h_2 =>
    cases hfault
    rfl

namespace Expr

/-- The tokens that are kept in a tree, in the order in which they are written. -/
def tokens : Expr → List Token
  | literal _ => []
  | group inner => inner.tokens
  | unary operator operand => operator :: operand.tokens
  | binary operator left right => left.tokens ++ operator :: right.tokens
  | assign name assigned => name :: assigned.tokens

theorem tokens_mapLines (expression : Expr) :
    (expression.mapLines change).tokens = expression.tokens.map (Token.mapLine change) := by
  induction expression with
  | literal value => rfl
  | group inner ih => exact ih
  | unary operator operand ih => exact congrArg (List.cons _) ih
  | binary operator left right ihleft ihright =>
    rw [mapLines, tokens, tokens, ihleft, ihright, List.map_append]
    rfl
  | assign name assigned ih => exact congrArg (List.cons _) ih

/-- Whatever the tree, a fault blames one of its tokens. -/
theorem exists_mem_tokens_of_evaluate_eq_error {expression : Expr} {fault : Diagnostic}
    (hfault : expression.evaluate = .error fault) :
    ∃ token ∈ expression.tokens, fault.token? = some token := by
  induction expression with
  | literal value => cases hfault
  | group inner ih => exact ih hfault
  | unary operator operand ih =>
    cases hoperand : operand.evaluate with
    | error inner =>
      rw [evaluate_unary_of_error hoperand] at hfault
      obtain ⟨token, hmem, htoken⟩ := ih (hoperand.trans hfault)
      exact ⟨token, List.mem_cons_of_mem _ hmem, htoken⟩
    | ok value =>
      rw [evaluate_unary_of_ok hoperand] at hfault
      exact ⟨operator, List.mem_cons_self, Token.token?_of_applyUnary hfault⟩
  | binary operator left right ihleft ihright =>
    cases hleft : left.evaluate with
    | error inner =>
      rw [evaluate_binary_of_left_error hleft] at hfault
      obtain ⟨token, hmem, htoken⟩ := ihleft (hleft.trans hfault)
      exact ⟨token, List.mem_append_left _ hmem, htoken⟩
    | ok leftValue =>
      cases hright : right.evaluate with
      | error inner =>
        rw [evaluate_binary_of_right_error hleft hright] at hfault
        obtain ⟨token, hmem, htoken⟩ := ihright (hright.trans hfault)
        exact ⟨token, List.mem_append_right _ (List.mem_cons_of_mem _ hmem), htoken⟩
      | ok rightValue =>
        rw [evaluate_binary_of_ok hleft hright] at hfault
        exact ⟨operator, List.mem_append_right _ List.mem_cons_self,
          Token.token?_of_applyBinary hfault⟩
  | assign name assigned _ =>
    cases hfault
    exact ⟨name, List.mem_cons_self, rfl⟩

/-- Trees that are the same but for lines have the same value, or blame their tokens at the same
place. -/
theorem evaluate_agrees {expression other : Expr}
    (hsame : expression.withoutLines = other.withoutLines) :
    ∃ index, Agree (· = ·) (BlameAlike expression.tokens other.tokens index) expression.evaluate
      other.evaluate := by
  obtain ⟨common, rfl, rfl⟩ := exists_common hsame
  simp only [evaluate_mapLines, tokens_mapLines]
  cases hevaluate : common.evaluate with
  | ok value => exact ⟨0, rfl⟩
  | error fault =>
    obtain ⟨token, hmem, htoken⟩ := exists_mem_tokens_of_evaluate_eq_error hevaluate
    obtain ⟨index, hindex⟩ := List.mem_iff_getElem?.mp hmem
    exact ⟨index, blameAlike_mapLine hindex htoken _ _⟩

end Expr

/-! ### Rows of tokens -/

section Rows

variable {first second : List Token}

/-- Rows that are the same but for lines are parsed up to the same place, to trees that are the same
but for lines or to faults that blame the tokens there. -/
theorem Parser.parse_agrees (hne : first ≠ [])
    (hsame : first.map Token.withoutLine = second.map Token.withoutLine) :
    let parsed := (ofTokens first).parse
    let otherParsed := (ofTokens second).parse
    parsed.2.cursor = otherParsed.2.cursor ∧
      Agree (fun expression other ↦ expression.withoutLines = other.withoutLines)
        (BlameAlike (terminated first) (terminated second) parsed.2.cursor)
        parsed.1 otherParsed.1 := by
  obtain ⟨row, rfl, rfl⟩ := exists_common_row hsame
  have hrow : row ≠ [] := mt (congrArg (List.map _)) hne
  intro parsed otherParsed
  have hparsed : parsed = _ := congrArg parse (ofTokens_map hrow)
  have hother : otherParsed = _ := congrArg parse (ofTokens_map hrow)
  rw [hparsed, hother, parse_mapLines, parse_mapLines, terminated_map hrow, terminated_map hrow]
  refine ⟨rfl, ?_⟩
  cases hparse : (ofTokens row).parse.1 with
  | ok expression =>
    change Expr.withoutLines _ = Expr.withoutLines _
    rw [Expr.withoutLines_mapLines, Expr.withoutLines_mapLines]
  | error fault =>
    obtain ⟨found, hfound, htoken⟩ := exists_token?_of_parse_eq_error (isOver_ofTokens row) hparse
    exact blameAlike_mapLine hfound htoken _ _

theorem outcomeOf_map {row : List Token} (hne : row ≠ []) :
    outcomeOf (row.map (Token.mapLine change)) =
      (outcomeOf row).mapError (Diagnostic.mapLine change) := by
  rw [outcomeOf, Parser.ofTokens_map hne, Parser.parse_mapLines, outcomeOf]
  cases (Parser.ofTokens row).parse.1 with
  | error fault => rfl
  | ok expression => exact expression.evaluate_mapLines

/-- Be it in the parse or in the evaluation, a fault blames a token of the row. -/
theorem exists_getElem?_of_outcomeOf_eq_error {row : List Token} {fault : Diagnostic}
    (hfault : outcomeOf row = .error fault) :
    ∃ (index : Nat) (token : Token), (Parser.terminated row)[index]? = some token ∧
      fault.token? = some token := by
  rw [outcomeOf] at hfault
  cases hparse : (Parser.ofTokens row).parse.1 with
  | error found =>
    rw [hparse] at hfault
    cases hfault
    obtain ⟨token, hplace, htoken⟩ :=
      Parser.exists_token?_of_parse_eq_error (Parser.isOver_ofTokens row) hparse
    exact ⟨_, token, hplace, htoken⟩
  | ok expression =>
    rw [hparse] at hfault
    obtain ⟨before, spelling, next, beyond, hterminated, _, _, hstratified, hspells, _⟩ :=
      Parser.exists_spelling_of_parse_eq_ok (Parser.isOver_ofTokens row) hparse
    obtain ⟨token, hmem, htoken, _⟩ :=
      Expr.exists_symbol_of_evaluate_eq_error hspells hstratified hfault
    have hrow : token ∈ Parser.terminated row := by
      rw [hterminated]
      exact List.mem_append_right _ (List.mem_append_left _ hmem)
    obtain ⟨index, hindex⟩ := List.mem_iff_getElem?.mp hrow
    exact ⟨index, token, hindex, htoken⟩

/-- Rows that are the same but for lines come to the same value, or blame their tokens at the same
place. -/
theorem outcomeOf_agrees (hne : first ≠ [])
    (hsame : first.map Token.withoutLine = second.map Token.withoutLine) :
    ∃ index, Agree (· = ·) (BlameAlike (Parser.terminated first) (Parser.terminated second) index)
      (outcomeOf first) (outcomeOf second) := by
  obtain ⟨row, rfl, rfl⟩ := exists_common_row hsame
  have hrow : row ≠ [] := mt (congrArg (List.map _)) hne
  rw [outcomeOf_map hrow, outcomeOf_map hrow, Parser.terminated_map hrow,
    Parser.terminated_map hrow]
  cases houtcome : outcomeOf row with
  | ok value => exact ⟨0, rfl⟩
  | error fault =>
    obtain ⟨index, found, hfound, htoken⟩ := exists_getElem?_of_outcomeOf_eq_error houtcome
    exact ⟨index, blameAlike_mapLine hfound htoken _ _⟩

end Rows

/-! ### Source texts -/

theorem tokens_scan_ne_nil (source : String) : (scan source).tokens ≠ [] := by
  simp [scan]

/-- Source texts without lexical errors whose tokens are the same but for lines come to the same
value, or to diagnostics with the same words on the lines of the tokens at the same place. -/
theorem run_agrees {source other : String} (herrors : (scan source).errors = [])
    (hotherErrors : (scan other).errors = [])
    (hsame : (scan source).tokens.map Token.withoutLine =
      (scan other).tokens.map Token.withoutLine) :
    ∃ (outcome otherOutcome : Except Diagnostic Value) (index : Nat),
      Agree (· = ·) (WordedAlike (scan source).tokens (scan other).tokens index)
          outcome otherOutcome ∧
        ∀ reporter : Reporter, reporter.hadError = false →
          runWith (run source) reporter = runWith (conclude outcome) reporter ∧
            runWith (run other) reporter = runWith (conclude otherOutcome) reporter := by
  obtain ⟨index, hagree⟩ := outcomeOf_agrees (tokens_scan_ne_nil source) hsame
  rw [terminated_scan, terminated_scan] at hagree
  exact ⟨_, _, index, hagree.of_blamed fun _ _ ↦ BlameAlike.wordedAlike, fun reporter hclear ↦
    ⟨runWith_run_of_errors_eq_nil herrors hclear, runWith_run_of_errors_eq_nil hotherErrors hclear⟩⟩

/-- Lines are not looked at. Rows of tokens that are the same but for lines are parsed alike, and
trees that are the same but for lines are evaluated alike: they come to the same, but for lines, or
they blame the tokens at the same place. So source texts without lexical errors whose tokens are the
same but for lines are run alike, whatever blanks, newlines and comments are between the tokens. -/
theorem agree_up_to_lines :
    (∀ first second : List Token, first ≠ [] →
      first.map Token.withoutLine = second.map Token.withoutLine →
      let parsed := (Parser.ofTokens first).parse
      let otherParsed := (Parser.ofTokens second).parse
      parsed.2.cursor = otherParsed.2.cursor ∧
        Agree (fun expression other ↦ expression.withoutLines = other.withoutLines)
          (BlameAlike (Parser.terminated first) (Parser.terminated second) parsed.2.cursor)
          parsed.1 otherParsed.1) ∧
    (∀ expression other : Expr, expression.withoutLines = other.withoutLines →
      ∃ index, Agree (· = ·) (BlameAlike expression.tokens other.tokens index)
        expression.evaluate other.evaluate) ∧
    ∀ source other : String, (scan source).errors = [] → (scan other).errors = [] →
      (scan source).tokens.map Token.withoutLine = (scan other).tokens.map Token.withoutLine →
      ∃ (outcome otherOutcome : Except Diagnostic Value) (index : Nat),
        Agree (· = ·) (WordedAlike (scan source).tokens (scan other).tokens index)
            outcome otherOutcome ∧
          ∀ reporter : Reporter, reporter.hadError = false →
            runWith (run source) reporter = runWith (conclude outcome) reporter ∧
              runWith (run other) reporter = runWith (conclude otherOutcome) reporter :=
  ⟨fun _ _ ↦ Parser.parse_agrees, fun _ _ ↦ Expr.evaluate_agrees, fun _ _ ↦ run_agrees⟩

/-- A parenthesis that is not closed behind its operand, which may be further down, and a negation
of no number that may be parted from its operand by a comment. -/
theorem agree_up_to_lines_negated_nil :
    let row (line : Nat) : List Token :=
      [⟨.symbol .leftParen, "(", 1⟩, ⟨.keyword .nilWord, "nil", line⟩]
    let negation (line : Nat) := Expr.unary ⟨.symbol .minus, "-", line⟩ (.literal .nil)
    let source := "-nil"
    let other := "\n- // (\n nil"
    (row 1 ≠ [] ∧ (row 1).map Token.withoutLine = (row 4).map Token.withoutLine ∧
      BlameAlike (Parser.terminated (row 1)) (Parser.terminated (row 4)) 2
        (.unclosedParenthesis ⟨.endOfInput, "", 1⟩)
        (.unclosedParenthesis ⟨.endOfInput, "", 4⟩)) ∧
    ((negation 1).withoutLines = (negation 2).withoutLines ∧
      ∃ index, BlameAlike (negation 1).tokens (negation 2).tokens index
        (.operandNotNumber ⟨.symbol .minus, "-", 1⟩)
        (.operandNotNumber ⟨.symbol .minus, "-", 2⟩)) ∧
    (scan source).errors = [] ∧ (scan other).errors = [] ∧
      (scan source).tokens.map Token.withoutLine = (scan other).tokens.map Token.withoutLine ∧
      ∃ (outcome otherOutcome : Except Diagnostic Value) (index : Nat),
        Agree (· = ·) (WordedAlike (scan source).tokens (scan other).tokens index)
            outcome otherOutcome ∧
          runWith (run source) (.fresh none) = runWith (conclude outcome) (.fresh none) ∧
            runWith (run other) (.fresh none) = runWith (conclude otherOutcome) (.fresh none) := by
  intro row negation source other
  obtain ⟨hparse, hevaluate, hrun⟩ := agree_up_to_lines
  have hrows : (row 1).map Token.withoutLine = (row 4).map Token.withoutLine := rfl
  have hopen (line : Nat) : (Parser.ofTokens (row line)).parse.1 =
      .error (.unclosedParenthesis ⟨.endOfInput, "", line⟩) := rfl
  have hplace : (Parser.ofTokens (row 1)).parse.2.cursor = 2 := rfl
  have hagreeParse := (hparse (row 1) (row 4) (by simp [row]) hrows).2
  rw [hopen, hopen, hplace] at hagreeParse
  have htrees : (negation 1).withoutLines = (negation 2).withoutLines := rfl
  have herrors : (scan source).errors = [] := by cbv
  have hotherErrors : (scan other).errors = [] := by cbv
  have htokens : (scan source).tokens.map Token.withoutLine =
      (scan other).tokens.map Token.withoutLine := by cbv
  obtain ⟨outcome, otherOutcome, index, hagree, hruns⟩ :=
    hrun source other herrors hotherErrors htokens
  exact ⟨⟨by simp [row], hrows, hagreeParse⟩,
    ⟨htrees, hevaluate (negation 1) (negation 2) htrees⟩, herrors, hotherErrors, htokens,
    outcome, otherOutcome, index, hagree, hruns (.fresh none) rfl⟩

end Lox
