import Lox.Number.Patterns
import Lox.Proofs.Composition
import Lox.Proofs.Lexing.Alone

/-!
# Writing trees as source texts

`Expr.source` writes a tree as a source text, whatever its shape: every operator is in parentheses
with its operands, lexemes are one space apart, and literals are written as in the text of a tree. A
tree is writable if its literals and operators have lexemes (`Expr.Writable`). What is read from the
text of a writable tree is the tree with a group around each operator, but for lines
(`Writable.exists_reads`). Groups have no bearing on evaluation, so the run of the text comes to
what the tree evaluates to (`run_source`).
-/

set_option autoImplicit false
set_option relaxedAutoImplicit false

namespace Lox

open Reporting

/-! ### Numerals -/

theorem Decimal.isDigits_wholeDigits (decimal : Decimal) : IsDigits decimal.wholeDigits :=
  ⟨Nat.toDigits_ne_nil,
    fun _ hmem ↦ isDigit_iff_isDecimalDigit.mp (isDigit_of_mem_wholeDigits hmem)⟩

theorem Decimal.isDigits_fractionDigits {decimal : Decimal} (hplaces : decimal.places ≠ 0) :
    IsDigits decimal.fractionDigits := by
  refine ⟨fun hnil ↦ hplaces ?_,
    fun _ hmem ↦ isDigit_iff_isDecimalDigit.mp (isDigit_of_mem_fractionDigits hmem)⟩
  rw [← decimal.length_fractionDigits, hnil, List.length_nil]

/-- A decimal is written as a numeral. -/
theorem Decimal.contains_characters (decimal : Decimal) :
    LexemeClass.numeral.Contains decimal.characters := by
  unfold characters
  split
  case isTrue =>
    rw [List.append_nil]
    exact .whole decimal.isDigits_wholeDigits
  case isFalse hplaces =>
    exact .fraction decimal.isDigits_wholeDigits (isDigits_fractionDigits hplaces)

theorem takes_shortest {pattern : Nat} (hle : pattern ≤ Binary64.infinity) :
    let numeral := (Binary64.shortest pattern).text.toList
    Takes numeral ⟨.token (.number (Number.ofPattern pattern)), numeral⟩ [] := by
  intro numeral
  have hcontains : LexemeClass.numeral.Contains numeral := by
    rw [show numeral = _ from String.toList_ofList]
    exact Decimal.contains_characters _
  have hdenotes := LexemeClass.Denotes.numeral numeral
  rw [Number.ofNumeral_shortest hle] at hdenotes
  exact takes_of_contains hcontains hdenotes

/-! ### Literals -/

/-- A value that one lexeme denotes: a number must be finite and without a sign, and a string
without a quote. -/
def Value.IsWritable : Value → Prop
  | nil => True
  | bool _ => True
  | number value => Number.isSigned value = false ∧ Number.magnitude value < Binary64.infinity
  | string characters => '"' ∉ characters.toList

theorem Keyword.contains_characters (word : Keyword) :
    LexemeClass.word.Contains word.characters := by
  have hletters : word.characters ≠ [] ∧ ∀ character ∈ word.characters, IsLetter character := by
    cases word <;> simp [characters, IsLetter]
  obtain ⟨head, tail, htext⟩ := List.exists_cons_of_ne_nil hletters.1
  rw [htext] at hletters ⊢
  exact .word (hletters.2 head List.mem_cons_self)
    fun character hmem ↦ .inl (hletters.2 character (List.mem_cons_of_mem head hmem))

theorem takes_keyword (word : Keyword) :
    Takes word.characters ⟨.token (.keyword word), word.characters⟩ [] :=
  takes_of_contains word.contains_characters (.keyword word)

/-- The text of a literal with a writable value is one lexeme, which denotes the value. -/
theorem exists_takes_literal {value : Value} (hwritable : value.IsWritable) :
    let text := (Expr.literal value).text.toList
    ∃ kind : TokenKind, kind.IsLiteral value ∧ Takes text ⟨.token kind, text⟩ [] := by
  intro text
  cases value with
  | nil => exact ⟨.keyword .nilWord, .nil, takes_keyword .nilWord⟩
  | bool truth =>
    cases truth with
    | false => exact ⟨.keyword .falseWord, .falsity, takes_keyword .falseWord⟩
    | true => exact ⟨.keyword .trueWord, .truth, takes_keyword .trueWord⟩
  | number value =>
    obtain ⟨hunsigned, hfinite⟩ := hwritable
    have htakes := takes_shortest (Nat.le_of_lt hfinite)
    rw [Number.ofPattern_magnitude hunsigned,
      ← Number.text_of_lt_infinity hunsigned hfinite] at htakes
    exact ⟨.number value, .number value, htakes⟩
  | string characters =>
    have htext : text = '"' :: (characters.toList ++ ['"']) := by simp [text, Expr.text]
    have htakes := takes_of_contains (.string hwritable) (.string characters.toList)
    rw [String.ofList_toList, ← htext] at htakes
    exact ⟨.string characters, .string characters, htakes⟩

/-! ### Operators -/

/-- The symbol that writes an operator. -/
def UnaryOperator.symbol : UnaryOperator → Symbol
  | negate => .minus
  | not => .bang

theorem UnaryOperator.isUnary_symbol (operator : UnaryOperator) :
    (TokenKind.symbol operator.symbol).IsUnary := by
  cases operator with
  | negate => exact .negate
  | not => exact .not

/-- The token of a symbol on the given line. -/
def Symbol.tokenOn (mark : Symbol) (line : Nat) : Token :=
  ⟨.symbol mark, String.ofList mark.characters, line⟩

theorem tokensFrom_symbol (mark : Symbol) (line : Nat) :
    tokensFrom line mark.characters = [mark.tokenOn line] := by
  rw [tokensFrom_of_takes_alone (takes_symbol_alone mark), mark.lineAfter_characters]
  rfl

theorem isComplete_symbol (mark : Symbol) : IsComplete mark.characters :=
  isComplete_of_takes_alone (takes_symbol_alone mark)

namespace Expr

/-! ### Trees as source texts -/

/-- The source text of a tree. Lexemes are one space apart, and every operator is in parentheses
with its operands. -/
def source : Expr → String
  | literal value => (literal value).text
  | group inner => "( " ++ inner.source ++ " )"
  | unary operator operand => "( " ++ operator.lexeme ++ " " ++ operand.source ++ " )"
  | binary operator left right =>
    "( " ++ left.source ++ " " ++ operator.lexeme ++ " " ++ right.source ++ " )"
  | assign name assigned => "( " ++ name.lexeme ++ " = " ++ assigned.source ++ " )"

/-- A tree with literals that lexemes denote, and with operators that are written as usual. Their
operands may be any trees, and their tokens may be on any lines. -/
inductive Writable : Expr → Prop
  | literal {value : Value} (hvalue : value.IsWritable) : Writable (literal value)
  | group {inner : Expr} (hinner : Writable inner) : Writable (group inner)
  | unary (operator : UnaryOperator) (line : Nat) {operand : Expr} (hoperand : Writable operand) :
      Writable (unary (operator.symbol.tokenOn line) operand)
  | binary (operator : BinaryOperator) (line : Nat) {left right : Expr} (hleft : Writable left)
      (hright : Writable right) : Writable (binary (operator.symbol.tokenOn line) left right)

/-- The tree with a group around every operator. -/
def grouped : Expr → Expr
  | literal value => literal value
  | group inner => group inner.grouped
  | unary operator operand => group (unary operator operand.grouped)
  | binary operator left right => group (binary operator left.grouped right.grouped)
  | assign name assigned => group (assign name assigned.grouped)

/-- Groups make no difference to evaluation. -/
theorem evaluate_grouped (expression : Expr) :
    expression.grouped.evaluate = expression.evaluate := by
  induction expression with
  | literal value => rfl
  | group inner ih => exact ih
  | unary operator operand ih => rw [grouped, evaluate, evaluate, evaluate, ih]
  | binary operator left right ihleft ihright =>
    rw [grouped, evaluate, evaluate, evaluate, ihleft, ihright]
  | assign name assigned _ => rfl

theorem level_grouped (expression : Expr) : expression.grouped.level = 6 := by
  cases expression <;> rfl

theorem level_withoutLines (expression : Expr) :
    expression.withoutLines.level = expression.level :=
  level_mapLines expression

end Expr

/-! ### Spaces and parentheses -/

section Spaces

variable {first text : List Char}

theorem tokensFrom_append_space (hfirst : IsComplete first) (line : Nat) (second : List Char) :
    tokensFrom line (first ++ ' ' :: second) =
      tokensFrom line first ++ tokensFrom (lineAfter line first) second := by
  rw [hfirst.tokensFrom_append (by decide), lineAfter_append]
  rfl

/-- A text in parentheses, a space away from each. -/
def inParentheses (text : List Char) : List Char :=
  Symbol.leftParen.characters ++ ' ' :: (text ++ ' ' :: Symbol.rightParen.characters)

theorem isComplete_inParentheses (htext : IsComplete text) : IsComplete (inParentheses text) :=
  (isComplete_symbol .leftParen).append
    (htext.append (isComplete_symbol .rightParen) (by decide)) (by decide)

theorem tokensFrom_inParentheses (htext : IsComplete text) (line : Nat) :
    tokensFrom line (inParentheses text) =
      Symbol.leftParen.tokenOn line :: tokensFrom line text ++
        [Symbol.rightParen.tokenOn (lineAfter line text)] := by
  rw [inParentheses, tokensFrom_append_space (isComplete_symbol .leftParen), tokensFrom_symbol,
    Symbol.lineAfter_characters, tokensFrom_append_space htext, tokensFrom_symbol]
  rfl

end Spaces

namespace Expr

/-! ### The text of a tree is read as the tree -/

/-- A complete text whose tokens spell the tree but for lines, wherever the text begins. -/
structure IsReadFrom (expression : Expr) (text : List Char) : Prop where
  isComplete : IsComplete text
  exists_spells : ∀ line, ∃ tree : Expr, tree.withoutLines = expression.withoutLines ∧
    tree.Stratified ∧ tree.Spells (tokensFrom line text)

namespace IsReadFrom

variable {expression left right : Expr} {text leftText rightText : List Char}

theorem literal {value : Value} (hwritable : value.IsWritable) :
    IsReadFrom (.literal value) (Expr.literal value).text.toList := by
  obtain ⟨kind, hliteral, htakes⟩ := exists_takes_literal hwritable
  refine ⟨isComplete_of_takes_alone htakes, fun line ↦ ⟨.literal value, rfl, .literal value, ?_⟩⟩
  rw [tokensFrom_of_takes_alone htakes]
  exact .literal hliteral

theorem group (hread : IsReadFrom expression text) :
    IsReadFrom (.group expression) (inParentheses text) := by
  refine ⟨isComplete_inParentheses hread.isComplete, fun line ↦ ?_⟩
  obtain ⟨tree, hsame, hstratified, hspells⟩ := hread.exists_spells line
  refine ⟨.group tree, congrArg Expr.group hsame, .group hstratified, ?_⟩
  rw [tokensFrom_inParentheses hread.isComplete]
  exact .group rfl rfl hspells

theorem unary (hread : IsReadFrom expression text) (htight : 5 ≤ expression.level)
    (operator : UnaryOperator) (place : Nat) :
    IsReadFrom (.unary (operator.symbol.tokenOn place) expression)
      (operator.symbol.characters ++ ' ' :: text) := by
  refine ⟨(isComplete_symbol operator.symbol).append hread.isComplete (by decide), fun line ↦ ?_⟩
  obtain ⟨tree, hsame, hstratified, hspells⟩ := hread.exists_spells line
  rw [← level_withoutLines, ← hsame, level_withoutLines] at htight
  refine ⟨.unary (operator.symbol.tokenOn line) tree, congrArg (Expr.unary _) hsame,
    .unary operator.isUnary_symbol htight hstratified, ?_⟩
  rw [tokensFrom_append_space (isComplete_symbol _), tokensFrom_symbol,
    Symbol.lineAfter_characters]
  exact .unary hspells

theorem binary (hleft : IsReadFrom left leftText) (hright : IsReadFrom right rightText)
    (htightLeft : 5 ≤ left.level) (htightRight : 5 ≤ right.level)
    (operator : BinaryOperator) (place : Nat) :
    IsReadFrom (.binary (operator.symbol.tokenOn place) left right)
      (leftText ++ ' ' :: (operator.symbol.characters ++ ' ' :: rightText)) := by
  have hoperator := (isComplete_symbol operator.symbol).append hright.isComplete
    (by decide : IsBlank ' ')
  refine ⟨hleft.isComplete.append hoperator (by decide), fun line ↦ ?_⟩
  obtain ⟨leftTree, hsameLeft, hstratifiedLeft, hspellsLeft⟩ := hleft.exists_spells line
  obtain ⟨rightTree, hsameRight, hstratifiedRight, hspellsRight⟩ :=
    hright.exists_spells (lineAfter line leftText)
  rw [← level_withoutLines, ← hsameLeft, level_withoutLines] at htightLeft
  rw [← level_withoutLines, ← hsameRight, level_withoutLines] at htightRight
  have hfour := operator.precedence_le_four
  refine ⟨.binary (operator.symbol.tokenOn (lineAfter line leftText)) leftTree rightTree,
    congrArg₂ (Expr.binary _) hsameLeft hsameRight,
    .binary operator.binaryLevel?_symbol (by omega) (by omega) hstratifiedLeft hstratifiedRight, ?_⟩
  rw [tokensFrom_append_space hleft.isComplete, tokensFrom_append_space (isComplete_symbol _),
    tokensFrom_symbol, Symbol.lineAfter_characters]
  exact .binary hspellsLeft hspellsRight

end IsReadFrom

theorem toList_source_group (inner : Expr) :
    (group inner).source.toList = inParentheses inner.source.toList := by
  simp [source, inParentheses, Symbol.characters]

theorem toList_source_unary (mark : Symbol) (line : Nat) (operand : Expr) :
    (unary (mark.tokenOn line) operand).source.toList =
      inParentheses (mark.characters ++ ' ' :: operand.source.toList) := by
  simp [source, inParentheses, Symbol.tokenOn, Symbol.characters]

theorem toList_source_binary (mark : Symbol) (line : Nat) (left right : Expr) :
    (binary (mark.tokenOn line) left right).source.toList =
      inParentheses
        (left.source.toList ++ ' ' :: (mark.characters ++ ' ' :: right.source.toList)) := by
  simp [source, inParentheses, Symbol.tokenOn, Symbol.characters]

theorem Writable.isReadFrom {expression : Expr} (hwritable : expression.Writable) :
    IsReadFrom expression.grouped expression.source.toList := by
  have htight (operand : Expr) : 5 ≤ operand.grouped.level := by
    rw [operand.level_grouped]
    decide
  induction hwritable with
  | literal hvalue => exact .literal hvalue
  | group _ ih =>
    rw [toList_source_group]
    exact ih.group
  | unary operator line _ ih =>
    rw [toList_source_unary]
    exact (ih.unary (htight _) operator line).group
  | binary operator line _ _ ihleft ihright =>
    rw [toList_source_binary]
    exact (ihleft.binary ihright (htight _) (htight _) operator line).group

/-- The text of a writable tree is a whole expression. Its tree is the one with a group around every
operator, but for lines. -/
theorem Writable.exists_reads {expression : Expr} (hwritable : expression.Writable) :
    ∃ tree : Expr, Reads expression.source tree ∧
      tree.withoutLines = expression.grouped.withoutLines := by
  have hread := hwritable.isReadFrom
  obtain ⟨tree, hsame, hstratified, hspells⟩ := hread.exists_spells 1
  exact ⟨tree, reads_iff.mpr ⟨hread.isComplete.isClosed, hstratified, hspells⟩, hsame⟩

/-- The run of the text of a writable tree comes to what the tree evaluates to: the same value, or
the same fault but for its line. -/
theorem run_source {expression : Expr} (hwritable : expression.Writable) {reporter : Reporter}
    (hclear : reporter.hadError = false) :
    ∃ outcome : Except Diagnostic Value,
      runWith (run expression.source) reporter = runWith (conclude outcome) reporter ∧
        outcome.mapError Diagnostic.withoutLine =
          expression.evaluate.mapError Diagnostic.withoutLine := by
  obtain ⟨tree, hreads, hsame⟩ := hwritable.exists_reads
  refine ⟨tree.evaluate, runWith_run_of_reads hreads hclear, ?_⟩
  rw [evaluate_eq_of_withoutLines hsame, evaluate_grouped]

/-- A product whose first operand is a sum, which is in no group. -/
def productOfSum : Expr :=
  binary (Symbol.star.tokenOn 3)
    (binary (Symbol.plus.tokenOn 8) (literal (.string "a\n// (")) (literal (.number 1.5)))
    (unary (Symbol.bang.tokenOn 0) (literal .nil))

theorem run_source_productOfSum :
    productOfSum.Writable ∧
      productOfSum.source = "( ( \"a\n// (\" + 1.5 ) * ( ! nil ) )" ∧
      ∃ outcome : Except Diagnostic Value,
        runWith (run productOfSum.source) (.fresh none) =
            runWith (conclude outcome) (.fresh none) ∧
          outcome.mapError Diagnostic.withoutLine =
            .error (.mismatchedOperands (Symbol.plus.tokenOn 0) (.string "a\n// (")
              (.number 1.5)) := by
  have hwritable : productOfSum.Writable := by
    refine .binary .multiply 3 (.binary .add 8 (.literal ?_) (.literal ?_))
      (.unary .not 0 (.literal ?_))
    · simp [Value.IsWritable]
    · exact ⟨by decide +kernel, by decide +kernel⟩
    · trivial
  refine ⟨hwritable, by decide +kernel, ?_⟩
  exact run_source hwritable rfl

end Expr

end Lox
