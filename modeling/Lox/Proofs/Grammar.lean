import Mathlib
import Lox.Expr.Basic

/-!
# The grammar of expressions

`Expr.Spells` says which tokens a tree is written with, and `Expr.Stratified` which trees need no
parentheses but those of their groups: there the operands of an operator are of a high enough level,
the left one at least of that of the operator, the right one of a higher one. The rows of tokens
that spell a stratified tree are the expressions of the language (`SpellsExpression`), and their
beginnings are what a reader may have before it while an expression can still go on
(`BeginsExpression`). `derives_iff` says that the rules of the grammar, one for each level, derive
the same rows with the same trees.

The grammar has its own table of the literals, the operators and their levels, by the tokens that
write them. That the tables of the program agree with it is proved here (`literal?_eq_some_iff`,
`isUnary_iff`, `binaryLevel?_eq`).
-/

set_option autoImplicit false
set_option relaxedAutoImplicit false

namespace Lox

namespace TokenKind

/-! ### The tokens of the grammar -/

/-- A token that is an expression by itself, and the value of that. -/
inductive IsLiteral : TokenKind → Value → Prop
  | nil : IsLiteral (keyword .nilWord) .nil
  | truth : IsLiteral (keyword .trueWord) (.bool true)
  | falsity : IsLiteral (keyword .falseWord) (.bool false)
  | number (value : Float) : IsLiteral (number value) (.number value)
  | string (characters : String) : IsLiteral (string characters) (.string characters)

/-- A token that may stand before an operand. -/
inductive IsUnary : TokenKind → Prop
  | not : IsUnary (symbol .bang)
  | negate : IsUnary (symbol .minus)

/-- The level of a token that may stand between two operands: that of equations, comparisons, sums
or products, from the loosest. -/
def binaryLevel? : TokenKind → Option Nat
  | symbol .equalEqual | symbol .bangEqual => some 1
  | symbol .greater | symbol .greaterEqual | symbol .less | symbol .lessEqual => some 2
  | symbol .plus | symbol .minus => some 3
  | symbol .star | symbol .slash => some 4
  | _ => none

section Tables

variable {kind : TokenKind}

theorem literal?_eq_some_iff {value : Value} :
    kind.literal? = some value ↔ kind.IsLiteral value := by
  constructor
  · intro hliteral
    unfold literal? at hliteral
    split at hliteral
    case h_1 => cases hliteral; exact .nil
    case h_2 => cases hliteral; exact .truth
    case h_3 => cases hliteral; exact .falsity
    case h_4 =>
      cases kind with
      | number numeral => cases hliteral; exact .number numeral
      | string characters => cases hliteral; exact .string characters
      | _ => cases hliteral
  · intro hliteral
    cases hliteral <;> rfl

theorem isUnary_iff : kind.IsUnary ↔ ∃ operator, kind.unaryOperator? = some operator := by
  constructor
  · intro hunary
    cases hunary with
    | not => exact ⟨.not, rfl⟩
    | negate => exact ⟨.negate, rfl⟩
  · rintro ⟨operator, hoperator⟩
    cases kind with
    | symbol mark =>
      cases mark with
      | bang => exact .not
      | minus => exact .negate
      | _ => cases hoperator
    | _ => cases hoperator

/-- The parser has the same operators and lets them bind in the same order. -/
theorem binaryLevel?_eq (kind : TokenKind) :
    kind.binaryLevel? = kind.binaryOperator?.map BinaryOperator.precedence := by
  cases kind with
  | symbol mark => cases mark <;> rfl
  | _ => rfl

theorem binaryLevel?_of_binaryOperator? {operator : BinaryOperator}
    (hoperator : kind.binaryOperator? = some operator) :
    kind.binaryLevel? = some operator.precedence := by
  rw [binaryLevel?_eq, hoperator, Option.map_some]

theorem exists_binaryOperator? {level : Nat} (hlevel : kind.binaryLevel? = some level) :
    ∃ operator, kind.binaryOperator? = some operator ∧ operator.precedence = level := by
  rwa [binaryLevel?_eq, Option.map_eq_some_iff] at hlevel

theorem binaryLevel?_eq_none_iff : kind.binaryLevel? = none ↔ kind.binaryOperator? = none := by
  rw [binaryLevel?_eq, Option.map_eq_none_iff]

end Tables

/-! ### Which tokens stand where -/

variable {kind : TokenKind}

/-- A token that means something that the end of the input does not mean is not the end. -/
theorem isEnd_of_some {α : Type} {meaning? : TokenKind → Option α} {result : α}
    (hsome : meaning? kind = some result) (hnone : meaning? .endOfInput = none) :
    kind.isEnd = false := by
  cases kind with
  | endOfInput =>
    rw [hnone] at hsome
    cases hsome
  | _ => rfl

theorem IsLiteral.isEnd {value : Value} (hliteral : kind.IsLiteral value) : kind.isEnd = false := by
  cases hliteral <;> rfl

theorem IsUnary.isEnd (hunary : kind.IsUnary) : kind.isEnd = false := by
  cases hunary <;> rfl

theorem literal?_of_unaryOperator? {operator : UnaryOperator}
    (hoperator : kind.unaryOperator? = some operator) : kind.literal? = none := by
  cases kind with
  | symbol mark => rfl
  | _ => cases hoperator

/-- Whether an operand may end with such a token. -/
def endsOperand : TokenKind → Bool
  | number _ => true
  | string _ => true
  | keyword .trueWord => true
  | keyword .falseWord => true
  | keyword .nilWord => true
  | symbol .rightParen => true
  | _ => false

theorem IsLiteral.endsOperand {value : Value} (hliteral : kind.IsLiteral value) :
    kind.endsOperand = true := by
  cases hliteral <;> rfl

theorem IsUnary.endsOperand (hunary : kind.IsUnary) : kind.endsOperand = false := by
  cases hunary <;> rfl

theorem endsOperand_of_binaryLevel? {level : Nat} (hlevel : kind.binaryLevel? = some level) :
    kind.endsOperand = false := by
  cases kind with
  | symbol mark => cases mark <;> first | rfl | cases hlevel
  | _ => cases hlevel

/-- Whether a token is the given symbol. -/
def isSymbol (mark : Symbol) : TokenKind → Bool
  | symbol other => other == mark
  | _ => false

end TokenKind

/-- How often a symbol stands in a row of tokens. -/
def symbolCount (mark : Symbol) (tokens : List Token) : Nat :=
  tokens.countP fun token ↦ token.kind.isSymbol mark

theorem symbolCount_append (mark : Symbol) (first second : List Token) :
    symbolCount mark (first ++ second) = symbolCount mark first + symbolCount mark second :=
  List.countP_append

/-- A token that means something that a symbol does not mean is not that symbol. -/
theorem symbolCount_singleton_of_some {α : Type} {meaning? : TokenKind → Option α} {result : α}
    {mark : Symbol} {token : Token} (hsome : meaning? token.kind = some result)
    (hnone : meaning? (.symbol mark) = none) : symbolCount mark [token] = 0 := by
  obtain ⟨kind, lexeme, line⟩ := token
  cases kind with
  | symbol other =>
    have hne : other ≠ mark := by
      intro heq
      rw [heq, hnone] at hsome
      cases hsome
    simp [symbolCount, TokenKind.isSymbol, hne]
  | _ => rfl

/-- A row of tokens ends with a token with which an operand may end. -/
def EndsWithOperand (tokens : List Token) : Prop :=
  ∃ last ∈ tokens.getLast?, last.kind.endsOperand = true

namespace Expr

/-! ### Stratified trees -/

/-- The level of a tree, which is that of its operator. Literals and groups are of the highest
level; what is no operator between two operands, and an assignment, is of none. -/
def level : Expr → Nat
  | literal _ => 6
  | group _ => 6
  | unary _ _ => 5
  | binary operator _ _ => operator.kind.binaryLevel?.getD 0
  | assign _ _ => 0

/-- Every operator is one of the grammar and has operands of a high enough level, and nothing is
assigned. -/
inductive Stratified : Expr → Prop
  | literal (value : Value) : Stratified (literal value)
  | group {inner : Expr} (hinner : Stratified inner) : Stratified (group inner)
  | unary {token : Token} {operand : Expr} (hunary : token.kind.IsUnary)
      (hlevel : 5 ≤ operand.level) (hoperand : Stratified operand) :
      Stratified (unary token operand)
  | binary {token : Token} {level : Nat} {left right : Expr}
      (hlevel : token.kind.binaryLevel? = some level) (hleftLevel : level ≤ left.level)
      (hrightLevel : level < right.level) (hleft : Stratified left) (hright : Stratified right) :
      Stratified (binary token left right)

theorem level_binary {token : Token} {level : Nat} (hlevel : token.kind.binaryLevel? = some level)
    (left right : Expr) : (binary token left right).level = level := by
  simp [Expr.level, hlevel]

theorem Stratified.level_pos {expression : Expr} (hstratified : expression.Stratified) :
    1 ≤ expression.level := by
  cases hstratified with
  | literal value => exact (by decide : 1 ≤ 6)
  | group _ => exact (by decide : 1 ≤ 6)
  | unary _ _ _ => exact (by decide : 1 ≤ 5)
  | binary hlevel _ _ _ _ =>
    obtain ⟨operator, _, rfl⟩ := TokenKind.exists_binaryOperator? hlevel
    rw [level_binary hlevel]
    cases operator <;> decide

/-! ### Spellings -/

/-- The tokens that a tree is written with. A literal is one token that denotes its value, a group
stands in parentheses, and operators are written before or between their operands. -/
inductive Spells : Expr → List Token → Prop
  | literal {value : Value} {token : Token} (hliteral : token.kind.IsLiteral value) :
      Spells (literal value) [token]
  | group {inner : Expr} {opening closing : Token} {tokens : List Token}
      (hopening : opening.kind = .symbol .leftParen)
      (hclosing : closing.kind = .symbol .rightParen) (hinner : Spells inner tokens) :
      Spells (group inner) (opening :: tokens ++ [closing])
  | unary {operator : Token} {operand : Expr} {tokens : List Token}
      (hoperand : Spells operand tokens) : Spells (unary operator operand) (operator :: tokens)
  | binary {operator : Token} {left right : Expr} {leftTokens rightTokens : List Token}
      (hleft : Spells left leftTokens) (hright : Spells right rightTokens) :
      Spells (binary operator left right) (leftTokens ++ operator :: rightTokens)

theorem Spells.ne_nil {expression : Expr} {tokens : List Token}
    (hspells : expression.Spells tokens) : tokens ≠ [] := by
  cases hspells <;> simp

/-- No expression is written with an end of input. -/
theorem Spells.isEnd_of_mem {expression : Expr} {tokens : List Token}
    (hspells : expression.Spells tokens) (hstratified : expression.Stratified) :
    ∀ token ∈ tokens, token.kind.isEnd = false := by
  induction hspells with
  | literal hliteral =>
    intro token hmem
    rw [List.mem_singleton.mp hmem]
    exact hliteral.isEnd
  | group hopening hclosing _ ih =>
    cases hstratified with
    | group hinner =>
      intro token hmem
      simp only [List.cons_append, List.mem_cons, List.mem_append, List.not_mem_nil,
        or_false] at hmem
      rcases hmem with rfl | hmem | rfl
      · rw [hopening]
        rfl
      · exact ih hinner token hmem
      · rw [hclosing]
        rfl
  | unary _ ih =>
    cases hstratified with
    | unary hunary _ hoperand =>
      intro token hmem
      rcases List.mem_cons.mp hmem with rfl | hmem
      · exact hunary.isEnd
      · exact ih hoperand token hmem
  | binary _ _ ihleft ihright =>
    cases hstratified with
    | binary hlevel _ _ hleft hright =>
      intro token hmem
      rcases List.mem_append.mp hmem with hmem | hmem
      · exact ihleft hleft token hmem
      · rcases List.mem_cons.mp hmem with rfl | hmem
        · exact TokenKind.isEnd_of_some hlevel rfl
        · exact ihright hright token hmem

end Expr

/-! ### Rules -/

/-- The rules by which rows of tokens are derived, each with the tree that it builds. Level 1 is
that of whole expressions. At each of the levels of binary operators a row may be extended on the
right by an operator and a row of the next level; level 5 is that of unary operators and level 6
that of literals and groups. -/
inductive Derives : Nat → List Token → Expr → Prop
  | next {level : Nat} {tokens : List Token} {expression : Expr}
      (hnext : Derives (level + 1) tokens expression) : Derives level tokens expression
  | binary {token : Token} {level : Nat} {leftTokens rightTokens : List Token} {left right : Expr}
      (hlevel : token.kind.binaryLevel? = some level) (hleft : Derives level leftTokens left)
      (hright : Derives (level + 1) rightTokens right) :
      Derives level (leftTokens ++ token :: rightTokens) (.binary token left right)
  | unary {token : Token} {tokens : List Token} {operand : Expr} (hunary : token.kind.IsUnary)
      (hoperand : Derives 5 tokens operand) : Derives 5 (token :: tokens) (.unary token operand)
  | literal {token : Token} {value : Value} (hliteral : token.kind.IsLiteral value) :
      Derives 6 [token] (.literal value)
  | group {opening closing : Token} {tokens : List Token} {inner : Expr}
      (hopening : opening.kind = .symbol .leftParen)
      (hclosing : closing.kind = .symbol .rightParen) (hinner : Derives 1 tokens inner) :
      Derives 6 (opening :: tokens ++ [closing]) (.group inner)

namespace Derives

variable {level lower : Nat} {tokens : List Token} {expression : Expr}

theorem of_le (hle : lower ≤ level) (hderives : Derives level tokens expression) :
    Derives lower tokens expression := by
  induction hle with
  | refl => exact hderives
  | step _ ih => exact ih hderives.next

theorem le_level (hderives : Derives level tokens expression) : level ≤ expression.level := by
  induction hderives with
  | next _ ih => exact Nat.le_of_succ_le ih
  | @binary _ _ _ _ left right hlevel _ _ _ _ => exact (Expr.level_binary hlevel left right).ge
  | unary _ _ _ => exact Nat.le_refl 5
  | literal _ => exact Nat.le_refl 6
  | group _ _ _ _ => exact Nat.le_refl 6

theorem stratified (hderives : Derives level tokens expression) : expression.Stratified := by
  induction hderives with
  | next _ ih => exact ih
  | binary hlevel hleft hright ihleft ihright =>
    exact .binary hlevel hleft.le_level hright.le_level ihleft ihright
  | unary hunary hoperand ih => exact .unary hunary hoperand.le_level ih
  | literal _ => exact .literal _
  | group _ _ _ ih => exact .group ih

theorem spells (hderives : Derives level tokens expression) : expression.Spells tokens := by
  induction hderives with
  | next _ ih => exact ih
  | binary _ _ _ ihleft ihright => exact .binary ihleft ihright
  | unary _ _ ih => exact .unary ih
  | literal hliteral => exact .literal hliteral
  | group hopening hclosing _ ih => exact .group hopening hclosing ih

end Derives

theorem Expr.Spells.derives {expression : Expr} {tokens : List Token}
    (hspells : expression.Spells tokens) (hstratified : expression.Stratified) :
    Derives expression.level tokens expression := by
  induction hspells with
  | literal hliteral => exact .literal hliteral
  | group hopening hclosing _ ih =>
    cases hstratified with
    | group hinner => exact .group hopening hclosing ((ih hinner).of_le hinner.level_pos)
  | unary _ ih =>
    cases hstratified with
    | unary hunary hlevel hoperand => exact .unary hunary ((ih hoperand).of_le hlevel)
  | binary _ _ ihleft ihright =>
    cases hstratified with
    | binary hlevel hleftLevel hrightLevel hleft hright =>
      rw [Expr.level_binary hlevel]
      exact .binary hlevel ((ihleft hleft).of_le hleftLevel) ((ihright hright).of_le hrightLevel)

/-- At each level the rules derive the stratified trees of this level and the higher ones, from the
tokens that spell them. -/
theorem derives_iff {level : Nat} {tokens : List Token} {expression : Expr} :
    Derives level tokens expression ↔
      level ≤ expression.level ∧ expression.Stratified ∧ expression.Spells tokens := by
  constructor
  · intro hderives
    exact ⟨hderives.le_level, hderives.stratified, hderives.spells⟩
  · rintro ⟨hle, hstratified, hspells⟩
    exact (hspells.derives hstratified).of_le hle

/-! ### Expressions and their beginnings -/

/-- A row of tokens is an expression of the language. -/
def SpellsExpression (tokens : List Token) : Prop :=
  ∃ expression : Expr, expression.Stratified ∧ expression.Spells tokens

/-- A row of tokens can be continued to an expression. -/
def BeginsExpression (tokens : List Token) : Prop :=
  ∃ later, SpellsExpression (tokens ++ later)

theorem SpellsExpression.beginsExpression {tokens : List Token}
    (hspells : SpellsExpression tokens) : BeginsExpression tokens :=
  ⟨[], by rwa [List.append_nil]⟩

theorem BeginsExpression.of_append {first second : List Token}
    (hbegins : BeginsExpression (first ++ second)) : BeginsExpression first := by
  obtain ⟨later, hspells⟩ := hbegins
  exact ⟨second ++ later, by rwa [← List.append_assoc]⟩

end Lox
