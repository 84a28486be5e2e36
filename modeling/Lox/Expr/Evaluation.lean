import Lox.Diagnostic
import Lox.Expr.Basic

/-!
# Evaluation

What an expression tree evaluates to, or the diagnostic of the first node that cannot be
evaluated. Operands are evaluated before their operator and the left one first; no operator leaves
an operand out. Arithmetic is that of doubles, so neither division by zero nor overflow is a fault.
-/

set_option autoImplicit false
set_option relaxedAutoImplicit false

namespace Lox

namespace UnaryOperator

/-- The value of an operator, written by the given token, on an evaluated operand. -/
def apply (operator : UnaryOperator) (token : Token) (operand : Value) :
    Except Diagnostic Value :=
  match operator, operand with
  | not, operand => .ok (.bool !operand.isTruthy)
  | negate, .number value => .ok (.number (-value))
  | negate, _ => .error (.operandNotNumber token)

end UnaryOperator

namespace BinaryOperator

/-- The value that two numbers give; other operands are blamed on the given token. -/
def onNumbers (compute : Float → Float → Value) (token : Token) :
    Value → Value → Except Diagnostic Value
  | .number left, .number right => .ok (compute left right)
  | left, right => .error (.operandsNotNumbers token left right)

/-- The sum of two numbers, or two strings in a row; other operands are blamed on the given
token. -/
def sum (token : Token) : Value → Value → Except Diagnostic Value
  | .number left, .number right => .ok (.number (left + right))
  | .string left, .string right => .ok (.string (left ++ right))
  | left, right => .error (.mismatchedOperands token left right)

/-- The value of an operator, written by the given token, on evaluated operands. -/
def apply (operator : BinaryOperator) (token : Token) (left right : Value) :
    Except Diagnostic Value :=
  match operator with
  | equal => .ok (.bool (left == right))
  | notEqual => .ok (.bool (left != right))
  | greater => onNumbers (fun left right ↦ .bool (decide (right < left))) token left right
  | greaterEqual => onNumbers (fun left right ↦ .bool (decide (right ≤ left))) token left right
  | less => onNumbers (fun left right ↦ .bool (decide (left < right))) token left right
  | lessEqual => onNumbers (fun left right ↦ .bool (decide (left ≤ right))) token left right
  | add => sum token left right
  | subtract => onNumbers (fun left right ↦ .number (left - right)) token left right
  | multiply => onNumbers (fun left right ↦ .number (left * right)) token left right
  | divide => onNumbers (fun left right ↦ .number (left / right)) token left right

end BinaryOperator

namespace Token

/-- What a token means before an operand. -/
def applyUnary (token : Token) (operand : Value) : Except Diagnostic Value :=
  match token.kind.unaryOperator? with
  | some operator => operator.apply token operand
  | none => .error (.unsupported token "Unknown unary operator.")

/-- What a token means between two operands. -/
def applyBinary (token : Token) (left right : Value) : Except Diagnostic Value :=
  match token.kind.binaryOperator? with
  | some operator => operator.apply token left right
  | none => .error (.unsupported token "Unknown binary operator.")

end Token

namespace Expr

/-- The value of a tree. There are no variables, so an assignment is refused as it stands, without
a look at what would be assigned. -/
def evaluate : Expr → Except Diagnostic Value
  | literal value => .ok value
  | group inner => inner.evaluate
  | unary operator operand => do
    operator.applyUnary (← operand.evaluate)
  | binary operator left right => do
    let leftValue ← left.evaluate
    let rightValue ← right.evaluate
    operator.applyBinary leftValue rightValue
  | assign name _ => .error (.unsupported name "Assignment is not supported.")

/-! ### Nodes and their operands -/

theorem evaluate_unary_of_ok {operand : Expr} {value : Value}
    (hoperand : operand.evaluate = .ok value) (token : Token) :
    (unary token operand).evaluate = token.applyUnary value := by
  rw [evaluate, hoperand]
  rfl

theorem evaluate_unary_of_error {operand : Expr} {fault : Diagnostic}
    (hoperand : operand.evaluate = .error fault) (token : Token) :
    (unary token operand).evaluate = .error fault := by
  rw [evaluate, hoperand]
  rfl

theorem evaluate_binary_of_ok {left right : Expr} {leftValue rightValue : Value}
    (hleft : left.evaluate = .ok leftValue) (hright : right.evaluate = .ok rightValue)
    (token : Token) :
    (binary token left right).evaluate = token.applyBinary leftValue rightValue := by
  rw [evaluate, hleft, hright]
  rfl

theorem evaluate_binary_of_left_error {left : Expr} {fault : Diagnostic}
    (hleft : left.evaluate = .error fault) (token : Token) (right : Expr) :
    (binary token left right).evaluate = .error fault := by
  rw [evaluate, hleft]
  rfl

theorem evaluate_binary_of_right_error {left right : Expr} {leftValue : Value}
    {fault : Diagnostic} (hleft : left.evaluate = .ok leftValue)
    (hright : right.evaluate = .error fault) (token : Token) :
    (binary token left right).evaluate = .error fault := by
  rw [evaluate, hleft, hright]
  rfl

theorem exists_evaluate_unary {operator : Token} {operand : Expr} {value : Value}
    (hvalue : (unary operator operand).evaluate = .ok value) :
    ∃ operandValue, operand.evaluate = .ok operandValue ∧
      operator.applyUnary operandValue = .ok value := by
  cases hoperand : operand.evaluate with
  | error diagnostic =>
    rw [evaluate_unary_of_error hoperand] at hvalue
    cases hvalue
  | ok operandValue =>
    rw [evaluate_unary_of_ok hoperand] at hvalue
    exact ⟨operandValue, rfl, hvalue⟩

theorem exists_evaluate_binary {operator : Token} {left right : Expr} {value : Value}
    (hvalue : (binary operator left right).evaluate = .ok value) :
    ∃ leftValue rightValue, left.evaluate = .ok leftValue ∧ right.evaluate = .ok rightValue ∧
      operator.applyBinary leftValue rightValue = .ok value := by
  cases hleft : left.evaluate with
  | error diagnostic =>
    rw [evaluate_binary_of_left_error hleft] at hvalue
    cases hvalue
  | ok leftValue =>
    cases hright : right.evaluate with
    | error diagnostic =>
      rw [evaluate_binary_of_right_error hleft hright] at hvalue
      cases hvalue
    | ok rightValue =>
      rw [evaluate_binary_of_ok hleft hright] at hvalue
      exact ⟨leftValue, rightValue, rfl, rfl, hvalue⟩

end Expr

end Lox
