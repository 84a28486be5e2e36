import Lox.Token

/-!
# Diagnostics

What can be wrong with a source text or with the evaluation of a tree, and how it is worded. A
diagnostic blames a token, which gives the place, or, where there is no token to blame, a line.
-/

set_option autoImplicit false
set_option relaxedAutoImplicit false

namespace Lox

/-- Why a text is no numeral. -/
inductive NumeralFault
  | empty
  | invalid
deriving DecidableEq

inductive Diagnostic
  /-- A string is still open at the end of the source, which is on this line. -/
  | unterminatedString (line : Nat)
  | malformedNumeral (line : Nat) (fault : NumeralFault)
  /-- No expression can go on with the token found. -/
  | expectedExpression (found : Token)
  /-- A parenthesis is open, and the token found does not close it. -/
  | unclosedParenthesis (found : Token)
  | operandNotNumber (operator : Token)
  | operandsNotNumbers (operator : Token) (left right : Value)
  /-- The operands are neither two numbers nor two strings. -/
  | mismatchedOperands (operator : Token) (left right : Value)
  /-- The tree has a node that has no meaning. -/
  | unsupported (node : Token) (note : String)
deriving BEq, Inhabited

namespace Diagnostic

/-- The blamed token. -/
def token? : Diagnostic → Option Token
  | unterminatedString _ | malformedNumeral _ _ => none
  | expectedExpression token | unclosedParenthesis token | operandNotNumber token
  | operandsNotNumbers token _ _ | mismatchedOperands token _ _ | unsupported token _ => some token

def line : Diagnostic → Nat
  | unterminatedString line | malformedNumeral line _ => line
  | expectedExpression token | unclosedParenthesis token | operandNotNumber token
  | operandsNotNumbers token _ _ | mismatchedOperands token _ _ | unsupported token _ => token.line

def message : Diagnostic → String
  | unterminatedString _ => "Unterminated string."
  | malformedNumeral _ _ => "Invalid number."
  | expectedExpression _ => "Expected expression."
  | unclosedParenthesis _ => "Expected ')' after expression."
  | operandNotNumber _ => "Operand must be a number."
  | operandsNotNumbers _ _ _ => "Operands must be numbers."
  | mismatchedOperands _ _ _ => "Illegal combination of operands."
  | unsupported _ note => note

/-- Where on its line a diagnostic is. -/
def place (diagnostic : Diagnostic) : String :=
  match diagnostic.token? with
  | none => ""
  | some token => if token.kind.isEnd then " at end" else " at '" ++ token.lexeme ++ "'"

/-- The whole text of a diagnostic. -/
def text (diagnostic : Diagnostic) : String :=
  "[line " ++ toString diagnostic.line ++ "] Error" ++ diagnostic.place ++ ": " ++
    diagnostic.message

end Diagnostic

end Lox
