import Lox.Proofs.Blame
import Lox.Proofs.Lexing.Separation

/-!
# Operators between source texts

`Reads` says that a source text is a whole expression: nothing is wrong with its lexemes, and its
tree takes in all of its tokens. A run of such a text comes to what its tree comes to
(`runWith_run_of_reads`). Two such texts can be put in parentheses with an operator between them.
Each is then read as it is read by itself, whatever comments, strings over several lines or loosely
binding operators it has (`Reads.writtenBetween`), and the run of the whole is made from the runs of
the two and the operator (`run_writtenBetween`).
-/

set_option autoImplicit false
set_option relaxedAutoImplicit false

namespace Lox

open Reporting

/-! ### Whole expressions -/

/-- Nothing is wrong with the lexemes of the text, and its parse gives the tree and leaves no token
unread. -/
structure Reads (source : String) (expression : Expr) : Prop where
  errors_eq : (scan source).errors = []
  parse_eq : (Parser.ofTokens (scan source).tokens).parse.1 = .ok expression
  unread_eq : (Parser.ofTokens (scan source).tokens).parse.2.unread = []

theorem tokens_ofTokens_scan (source : String) :
    (Parser.ofTokens (scan source).tokens).tokens = tokensFrom 1 source.toList := by
  have hbody := Parser.body_append (fun token ↦ @isEnd_of_mem_tokensFrom source.toList 1 token)
    [⟨.endOfInput, "", lineAfter 1 source.toList⟩]
  rw [← tokens_scanFrom, ← scan_eq_scanFrom] at hbody
  exact hbody.trans (List.append_nil _)

/-- The tree of a text is the one that all of its tokens spell. -/
theorem reads_iff {source : String} {expression : Expr} :
    Reads source expression ↔
      IsClosed source.toList ∧ expression.Stratified ∧
        expression.Spells (tokensFrom 1 source.toList) := by
  have htokens := tokens_ofTokens_scan source
  have hsize := (Parser.ofTokens (scan source).tokens).parse.2.cursor_add_length_unread
  rw [show (Parser.ofTokens (scan source).tokens).parse.2.tokens = _ from htokens] at hsize
  constructor
  · rintro ⟨herrors, hparse, hunread⟩
    obtain ⟨spelling, next, later, hscan, hcursor, hstratified, hspells, _⟩ :=
      exists_spelling_of_parse_scan hparse
    rw [hcursor, hunread] at hsize
    have hall : spelling = tokensFrom 1 source.toList :=
      (List.append_inj (hscan.symm.trans (tokens_scanFrom 1 source.toList)) hsize).1
    exact ⟨errors_scanFrom_eq_nil_iff.mp herrors, hstratified, hall ▸ hspells⟩
  · rintro ⟨hclosed, hstratified, hspells⟩
    have hunread : (Parser.ofTokens (scan source).tokens).unread =
        tokensFrom 1 source.toList ++ [] := by
      rw [List.append_nil, ← htokens]
      rfl
    obtain ⟨hparse, hcursor⟩ :=
      Parser.parse_of_unread_eq hunread hstratified hspells (by simp)
    refine ⟨errors_scanFrom_eq_nil_iff.mpr hclosed, hparse, List.eq_nil_of_length_eq_zero ?_⟩
    rw [hcursor] at hsize
    have hstart : (Parser.ofTokens (scan source).tokens).cursor = 0 := rfl
    omega

/-- What a run does that comes to a value or to a fault. -/
def conclude : Except Diagnostic Value → Reporting (Option Value)
  | .ok value => return some value
  | .error fault => do
    report fault
    return none

/-- What the expression comes to with which a row of tokens begins: its value, or what is wrong with
it. -/
def outcomeOf (tokens : List Token) : Except Diagnostic Value := do
  let expression ← (Parser.ofTokens tokens).parse.1
  expression.evaluate

/-- If nothing is wrong with the lexemes and no diagnostic is remembered, a run comes to what its
tokens come to. -/
theorem runWith_run_of_errors_eq_nil {source : String} (herrors : (scan source).errors = [])
    {reporter : Reporter} (hclear : reporter.hadError = false) :
    runWith (run source) reporter =
      runWith (conclude (outcomeOf (scan source).tokens)) reporter := by
  have hnone : runWith (([] : List Diagnostic).forM report) reporter = (.ok (), reporter) := rfl
  unfold run outcomeOf
  simp only [herrors, runWith_bind, hnone]
  cases (Parser.ofTokens (scan source).tokens).parse.1 with
  | error fault => rfl
  | ok expression =>
    change _ = runWith (conclude expression.evaluate) reporter
    simp only [runWith_bind, runWith_get, hclear]
    cases expression.evaluate <;> rfl

theorem runWith_run_of_parse {source : String} {expression : Expr}
    (herrors : (scan source).errors = [])
    (hparse : (Parser.ofTokens (scan source).tokens).parse.1 = .ok expression)
    {reporter : Reporter} (hclear : reporter.hadError = false) :
    runWith (run source) reporter = runWith (conclude expression.evaluate) reporter := by
  rw [runWith_run_of_errors_eq_nil herrors hclear, outcomeOf, hparse]
  rfl

/-- A whole expression is evaluated and nothing else, unless a diagnostic is remembered. -/
theorem runWith_run_of_reads {source : String} {expression : Expr}
    (hreads : Reads source expression) {reporter : Reporter} (hclear : reporter.hadError = false) :
    runWith (run source) reporter = runWith (conclude expression.evaluate) reporter :=
  runWith_run_of_parse hreads.errors_eq hreads.parse_eq hclear

/-! ### Texts in parentheses -/

section Parenthesized

variable {text : List Char}

/-- A text in parentheses. The newline ends a comment at the end of the text. -/
def parenthesized (text : List Char) : List Char :=
  '(' :: (text ++ ['\n', ')'])

theorem parenthesized_append (text later : List Char) :
    parenthesized text ++ later =
      Symbol.leftParen.characters ++ (text ++ '\n' :: (Symbol.rightParen.characters ++ later)) := by
  simp [parenthesized, Symbol.characters]

theorem takes_leftParen (rest : List Char) :
    Takes (Symbol.leftParen.characters ++ rest) ⟨.token (.symbol .leftParen), ['(']⟩ rest :=
  takes_symbol_of_withEqual?_eq_none rfl (by decide) rest

theorem takes_rightParen (rest : List Char) :
    Takes (Symbol.rightParen.characters ++ rest) ⟨.token (.symbol .rightParen), [')']⟩ rest :=
  takes_symbol_of_withEqual?_eq_none rfl (by decide) rest

theorem isClosed_parenthesized_append (hclosed : IsClosed text) {later : List Char}
    (hlater : IsClosed later) : IsClosed (parenthesized text ++ later) := by
  rw [parenthesized_append, isClosed_iff_of_takes (takes_leftParen _),
    isClosed_append_separator_iff hclosed (by decide) (.inl rfl),
    isClosed_iff_of_takes (takes_rightParen _)]
  exact ⟨by simp, by simp, hlater⟩

/-- The tokens of a text in parentheses are those of the text between two parentheses, the second of
which is one line further down. -/
theorem tokensFrom_parenthesized_append (hclosed : IsClosed text) (later : List Char) (line : Nat) :
    tokensFrom line (parenthesized text ++ later) =
      (⟨.symbol .leftParen, "(", line⟩ :: tokensFrom line text ++
          [⟨.symbol .rightParen, ")", lineAfter line text + 1⟩]) ++
        tokensFrom (lineAfter line text + 1) later := by
  rw [parenthesized_append, tokensFrom_of_takes (takes_leftParen _),
    tokensFrom_append_separator hclosed (by decide) (.inl rfl), lineAfter_append,
    tokensFrom_of_takes (takes_rightParen _)]
  simp only [List.cons_append, List.append_assoc, List.nil_append]
  rfl

end Parenthesized

/-! ### Operators between texts -/

namespace BinaryOperator

/-- The symbol that writes an operator. -/
def symbol : BinaryOperator → Symbol
  | equal => .equalEqual
  | notEqual => .bangEqual
  | greater => .greater
  | greaterEqual => .greaterEqual
  | less => .less
  | lessEqual => .lessEqual
  | add => .plus
  | subtract => .minus
  | multiply => .star
  | divide => .slash

theorem ofSymbol?_symbol (operator : BinaryOperator) :
    ofSymbol? operator.symbol = some operator := by
  cases operator <;> rfl

theorem binaryLevel?_symbol (operator : BinaryOperator) :
    (TokenKind.symbol operator.symbol).binaryLevel? = some operator.precedence :=
  TokenKind.binaryLevel?_of_binaryOperator? operator.ofSymbol?_symbol

/-- The token of an operator on the given line. -/
def tokenOn (operator : BinaryOperator) (line : Nat) : Token :=
  ⟨.symbol operator.symbol, String.ofList operator.symbol.characters, line⟩

/-- Two texts in parentheses with an operator between them. -/
def writtenBetween (operator : BinaryOperator) (first second : String) : String :=
  "(" ++ first ++ "\n)" ++ String.ofList operator.symbol.characters ++ "(" ++ second ++ "\n)"

theorem toList_writtenBetween (operator : BinaryOperator) (first second : String) :
    (operator.writtenBetween first second).toList =
      parenthesized first.toList ++
        (operator.symbol.characters ++ (parenthesized second.toList ++ [])) := by
  simp [writtenBetween, parenthesized]

theorem takes_parenthesized (operator : BinaryOperator) (text later : List Char) :
    Takes (operator.symbol.characters ++ (parenthesized text ++ later))
      ⟨.token (.symbol operator.symbol), operator.symbol.characters⟩
      (parenthesized text ++ later) := by
  refine takes_symbol fun next hnext ↦ ?_
  cases hnext
  exact ⟨by simp, by simp⟩

theorem evaluate_tokenOn (operator : BinaryOperator) (line : Nat) (left right : Expr) :
    (Expr.binary (operator.tokenOn line) left right).evaluate = (do
      let leftValue ← left.evaluate
      let rightValue ← right.evaluate
      operator.apply (operator.tokenOn line) leftValue rightValue) := by
  simp only [Expr.evaluate, Token.applyBinary, tokenOn, TokenKind.binaryOperator?,
    ofSymbol?_symbol]

end BinaryOperator

section Operands

variable {first second : String} {left right : Expr}

theorem isClosed_writtenBetween (hfirst : IsClosed first.toList) (hsecond : IsClosed second.toList)
    (operator : BinaryOperator) : IsClosed (operator.writtenBetween first second).toList := by
  rw [operator.toList_writtenBetween]
  refine isClosed_parenthesized_append hfirst ?_
  rw [isClosed_iff_of_takes (operator.takes_parenthesized _ _)]
  exact ⟨by simp, isClosed_parenthesized_append hsecond isClosed_nil⟩

theorem tokensFrom_writtenBetween (hfirst : IsClosed first.toList)
    (hsecond : IsClosed second.toList) (operator : BinaryOperator) :
    let lines := first.toList.count '\n'
    tokensFrom 1 (operator.writtenBetween first second).toList =
      (⟨.symbol .leftParen, "(", 1⟩ :: tokensFrom 1 first.toList ++
          [⟨.symbol .rightParen, ")", 2 + lines⟩]) ++
        operator.tokenOn (2 + lines) ::
          (⟨.symbol .leftParen, "(", 2 + lines⟩ ::
              (tokensFrom 1 second.toList).map (Token.mapLine (· + (1 + lines))) ++
            [⟨.symbol .rightParen, ")", lineAfter (2 + lines) second.toList + 1⟩]) := by
  intro lines
  have hline : lineAfter 1 first.toList + 1 = 1 + (1 + lines) := by
    simp only [lineAfter]
    omega
  have htwo : 2 + lines = 1 + (1 + lines) := by omega
  rw [operator.toList_writtenBetween, tokensFrom_parenthesized_append hfirst, hline, htwo,
    tokensFrom_of_takes (operator.takes_parenthesized _ _), Symbol.lineAfter_characters,
    tokensFrom_parenthesized_append hsecond, tokensFrom_nil, List.append_nil, tokensFrom_add]
  rfl

/-- An operator between two whole expressions is read with their trees as its operands. The second
tree is on lines further down, but it is the same otherwise. -/
theorem Reads.writtenBetween (hfirst : Reads first left) (hsecond : Reads second right)
    (operator : BinaryOperator) :
    let lines := first.toList.count '\n'
    Reads (operator.writtenBetween first second)
      (.binary (operator.tokenOn (2 + lines)) (.group left)
        (.group (right.mapLines (· + (1 + lines))))) := by
  intro lines
  obtain ⟨hfirstClosed, hleft, hleftSpells⟩ := reads_iff.mp hfirst
  obtain ⟨hsecondClosed, hright, hrightSpells⟩ := reads_iff.mp hsecond
  have htight : operator.precedence < 6 := by
    have hfour := operator.precedence_le_four
    omega
  refine reads_iff.mpr ⟨isClosed_writtenBetween hfirstClosed hsecondClosed operator, ?_, ?_⟩
  · exact .binary operator.binaryLevel?_symbol htight.le htight (.group hleft)
      (.group hright.mapLines)
  · rw [tokensFrom_writtenBetween hfirstClosed hsecondClosed operator]
    exact .binary (.group rfl rfl hleftSpells) (.group rfl rfl hrightSpells.mapLines)

/-- The run of an operator between two whole expressions is made from their runs. A fault of the
first is left as it is. Otherwise a fault of the second is the same but for the line, which is
further down by the newlines before the second text. Otherwise the operator is applied to the two
values, and a fault of that is blamed on its token. -/
theorem run_writtenBetween (hfirst : Reads first left) (hsecond : Reads second right)
    (operator : BinaryOperator) {reporter : Reporter} (hclear : reporter.hadError = false) :
    let lines := first.toList.count '\n'
    runWith (run first) reporter = runWith (conclude left.evaluate) reporter ∧
      runWith (run second) reporter = runWith (conclude right.evaluate) reporter ∧
      runWith (run (operator.writtenBetween first second)) reporter =
        runWith (conclude do
          let leftValue ← left.evaluate
          let rightValue ← right.evaluate.mapError (Diagnostic.mapLine (· + (1 + lines)))
          operator.apply (operator.tokenOn (2 + lines)) leftValue rightValue) reporter ∧
      ∀ leftValue rightValue fault,
        operator.apply (operator.tokenOn (2 + lines)) leftValue rightValue = .error fault →
          fault.token? = some (operator.tokenOn (2 + lines)) := by
  intro lines
  refine ⟨runWith_run_of_reads hfirst hclear, runWith_run_of_reads hsecond hclear, ?_,
    fun _ _ _ ↦ BinaryOperator.token?_of_apply⟩
  rw [runWith_run_of_reads (hfirst.writtenBetween hsecond operator) hclear,
    operator.evaluate_tokenOn]
  simp only [Expr.evaluate, Expr.evaluate_mapLines]
  rfl

end Operands

/-- The comment ends before its parenthesis, and the fault of the second text is two lines further
down. -/
theorem run_writtenBetween_negated_string :
    let left := Expr.unary ⟨.symbol .bang, "!", 1⟩ (.literal .nil)
    let right := Expr.unary ⟨.symbol .minus, "-", 1⟩ (.literal (.string "a\nb"))
    Reads "!nil\n// (" left ∧ Reads "-\"a\nb\"" right ∧
      runWith (run (BinaryOperator.add.writtenBetween "!nil\n// (" "-\"a\nb\"")) (.fresh none) =
        runWith (conclude (.error (.operandNotNumber ⟨.symbol .minus, "-", 3⟩))) (.fresh none) := by
  intro left right
  have hleft : Reads "!nil\n// (" left := ⟨by cbv, by cbv, by cbv⟩
  have hright : Reads "-\"a\nb\"" right := ⟨by cbv, by cbv, by cbv⟩
  obtain ⟨_, _, hrun, _⟩ := @run_writtenBetween _ _ _ _ hleft hright .add (.fresh none) rfl
  exact ⟨hleft, hright, hrun⟩

end Lox
