import Lox.Expr.Evaluation
import Lox.Proofs.Grammar

/-!
# Trees on other lines

The lines of tokens are for diagnostics only. If every token is moved to another line, the tree that
they spell is the same but for the lines (`Spells.mapLines`), and it has the same value, or the same
fault on the line to which the blamed token was moved (`evaluate_mapLines`).
-/

set_option autoImplicit false
set_option relaxedAutoImplicit false

namespace Lox

variable {change : Nat → Nat}

namespace Token

/-- The token on another line. -/
def mapLine (change : Nat → Nat) (token : Token) : Token :=
  { token with line := change token.line }

@[simp] theorem kind_mapLine (token : Token) : (token.mapLine change).kind = token.kind :=
  rfl

/-- The token as it is without regard to its line. -/
def withoutLine : Token → Token :=
  mapLine fun _ ↦ 0

theorem withoutLine_eq_iff {token other : Token} :
    token.withoutLine = other.withoutLine ↔
      token.kind = other.kind ∧ token.lexeme = other.lexeme := by
  simp [withoutLine, mapLine]

end Token

/-- The diagnostic on another line. -/
def Diagnostic.mapLine (change : Nat → Nat) : Diagnostic → Diagnostic
  | unterminatedString line => .unterminatedString (change line)
  | malformedNumeral line fault => .malformedNumeral (change line) fault
  | expectedExpression found => .expectedExpression (found.mapLine change)
  | unclosedParenthesis found => .unclosedParenthesis (found.mapLine change)
  | operandNotNumber operator => .operandNotNumber (operator.mapLine change)
  | operandsNotNumbers operator left right =>
    .operandsNotNumbers (operator.mapLine change) left right
  | mismatchedOperands operator left right =>
    .mismatchedOperands (operator.mapLine change) left right
  | unsupported node note => .unsupported (node.mapLine change) note

/-- The diagnostic as it is without regard to lines. -/
def Diagnostic.withoutLine : Diagnostic → Diagnostic :=
  mapLine fun _ ↦ 0

/-! ### Operators -/

theorem UnaryOperator.apply_mapLine (operator : UnaryOperator) (token : Token) (operand : Value) :
    operator.apply (token.mapLine change) operand =
      (operator.apply token operand).mapError (Diagnostic.mapLine change) := by
  cases operator <;> cases operand <;> rfl

theorem BinaryOperator.apply_mapLine (operator : BinaryOperator) (token : Token)
    (left right : Value) :
    operator.apply (token.mapLine change) left right =
      (operator.apply token left right).mapError (Diagnostic.mapLine change) := by
  cases operator <;> cases left <;> cases right <;> rfl

theorem Token.applyUnary_mapLine (token : Token) (operand : Value) :
    (token.mapLine change).applyUnary operand =
      (token.applyUnary operand).mapError (Diagnostic.mapLine change) := by
  rw [applyUnary, applyUnary, kind_mapLine]
  cases token.kind.unaryOperator? with
  | none => rfl
  | some operator => exact operator.apply_mapLine token operand

theorem Token.applyBinary_mapLine (token : Token) (left right : Value) :
    (token.mapLine change).applyBinary left right =
      (token.applyBinary left right).mapError (Diagnostic.mapLine change) := by
  rw [applyBinary, applyBinary, kind_mapLine]
  cases token.kind.binaryOperator? with
  | none => rfl
  | some operator => exact operator.apply_mapLine token left right

namespace Expr

/-! ### Trees -/

/-- The tree with every token on another line. -/
def mapLines (change : Nat → Nat) : Expr → Expr
  | literal value => .literal value
  | group inner => .group (inner.mapLines change)
  | unary operator operand => .unary (operator.mapLine change) (operand.mapLines change)
  | binary operator left right =>
    .binary (operator.mapLine change) (left.mapLines change) (right.mapLines change)
  | assign name assigned => .assign (name.mapLine change) (assigned.mapLines change)

/-- The tree as it is without regard to lines. -/
def withoutLines : Expr → Expr :=
  mapLines fun _ ↦ 0

theorem level_mapLines (expression : Expr) :
    (expression.mapLines change).level = expression.level := by
  cases expression <;> rfl

theorem Stratified.mapLines {expression : Expr} (hstratified : expression.Stratified) :
    (expression.mapLines change).Stratified := by
  induction hstratified with
  | literal value => exact .literal value
  | group _ ih => exact .group ih
  | unary hunary hlevel _ ih =>
    rw [← level_mapLines] at hlevel
    exact .unary hunary hlevel ih
  | binary hlevel hleftLevel hrightLevel _ _ ihleft ihright =>
    rw [← level_mapLines] at hleftLevel hrightLevel
    exact .binary hlevel hleftLevel hrightLevel ihleft ihright

theorem Spells.mapLines {expression : Expr} {tokens : List Token}
    (hspells : expression.Spells tokens) :
    (expression.mapLines change).Spells (tokens.map (Token.mapLine change)) := by
  induction hspells with
  | literal hliteral => exact .literal hliteral
  | group hopening hclosing _ ih =>
    rw [List.map_append]
    exact .group hopening hclosing ih
  | unary _ ih => exact .unary ih
  | binary _ _ ihleft ihright =>
    rw [List.map_append]
    exact .binary ihleft ihright

theorem evaluate_mapLines (expression : Expr) :
    (expression.mapLines change).evaluate =
      expression.evaluate.mapError (Diagnostic.mapLine change) := by
  induction expression with
  | literal value => rfl
  | group inner ih => exact ih
  | unary operator operand ih =>
    rw [mapLines]
    cases hoperand : operand.evaluate with
    | error fault =>
      rw [hoperand] at ih
      rw [evaluate_unary_of_error hoperand, evaluate_unary_of_error ih]
      rfl
    | ok value =>
      rw [hoperand] at ih
      rw [evaluate_unary_of_ok hoperand, evaluate_unary_of_ok ih, Token.applyUnary_mapLine]
  | binary operator left right ihleft ihright =>
    rw [mapLines]
    cases hleft : left.evaluate with
    | error fault =>
      rw [hleft] at ihleft
      rw [evaluate_binary_of_left_error hleft, evaluate_binary_of_left_error ihleft]
      rfl
    | ok leftValue =>
      rw [hleft] at ihleft
      cases hright : right.evaluate with
      | error fault =>
        rw [hright] at ihright
        rw [evaluate_binary_of_right_error hleft hright,
          evaluate_binary_of_right_error ihleft ihright]
        rfl
      | ok rightValue =>
        rw [hright] at ihright
        rw [evaluate_binary_of_ok hleft hright, evaluate_binary_of_ok ihleft ihright,
          Token.applyBinary_mapLine]
  | assign name assigned _ => rfl

/-- Trees that are the same but for lines come to the same, but for the line of a fault. -/
theorem evaluate_eq_of_withoutLines {expression other : Expr}
    (hsame : expression.withoutLines = other.withoutLines) :
    expression.evaluate.mapError Diagnostic.withoutLine =
      other.evaluate.mapError Diagnostic.withoutLine := by
  have hevaluate := congrArg evaluate hsame
  rwa [withoutLines, evaluate_mapLines, evaluate_mapLines] at hevaluate

end Expr

end Lox
