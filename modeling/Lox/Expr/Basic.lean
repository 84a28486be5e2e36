import Lox.Token

/-!
# Expressions and operators

Expression trees. An operator is kept as the token that wrote it, which may be any token; what it
means, if anything, is settled when the tree is evaluated. There are ten binary and two unary
operators, and the binary ones bind more or less tightly. The symbol `-` writes one of each; its
place in an expression tells which is meant.
-/

set_option autoImplicit false
set_option relaxedAutoImplicit false

namespace Lox

/-! ### Trees -/

inductive Expr
  | literal (value : Value)
  | group (inner : Expr)
  | unary (operator : Token) (operand : Expr)
  | binary (operator : Token) (left right : Expr)
  | assign (name : Token) (assigned : Expr)
deriving BEq, Inhabited

namespace Expr

/-- The text of a tree: every node but a literal is written in parentheses, its operator first.
Strings are in quotes here, which are not escaped inside. -/
def text : Expr → String
  | literal (.string characters) => "\"" ++ characters ++ "\""
  | literal value => value.text
  | group inner => "(group " ++ inner.text ++ ")"
  | unary operator operand => "(" ++ operator.lexeme ++ " " ++ operand.text ++ ")"
  | binary operator left right =>
    "(" ++ operator.lexeme ++ " " ++ left.text ++ " " ++ right.text ++ ")"
  | assign name assigned => "(= " ++ name.lexeme ++ " " ++ assigned.text ++ ")"

end Expr

/-! ### Operators -/

inductive UnaryOperator
  | negate
  | not
deriving DecidableEq

inductive BinaryOperator
  | equal
  | notEqual
  | greater
  | greaterEqual
  | less
  | lessEqual
  | add
  | subtract
  | multiply
  | divide
deriving DecidableEq

namespace UnaryOperator

def ofSymbol? : Symbol → Option UnaryOperator
  | .minus => some negate
  | .bang => some not
  | _ => none

end UnaryOperator

namespace BinaryOperator

def ofSymbol? : Symbol → Option BinaryOperator
  | .equalEqual => some equal
  | .bangEqual => some notEqual
  | .greater => some greater
  | .greaterEqual => some greaterEqual
  | .less => some less
  | .lessEqual => some lessEqual
  | .plus => some add
  | .minus => some subtract
  | .star => some multiply
  | .slash => some divide
  | _ => none

/-- How tightly an operator binds: equations, comparisons, sums and products, in this order. -/
def precedence : BinaryOperator → Nat
  | equal | notEqual => 1
  | greater | greaterEqual | less | lessEqual => 2
  | add | subtract => 3
  | multiply | divide => 4

end BinaryOperator

namespace TokenKind

def unaryOperator? : TokenKind → Option UnaryOperator
  | symbol mark => UnaryOperator.ofSymbol? mark
  | _ => none

def binaryOperator? : TokenKind → Option BinaryOperator
  | symbol mark => BinaryOperator.ofSymbol? mark
  | _ => none

end TokenKind

end Lox
