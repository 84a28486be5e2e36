import Lox.Diagnostic
import Lox.Expr.Basic

/-!
# Reading an expression, token by token

A reading is what is known of an expression after some of its tokens: the operand read last, if the
next token may follow an operand, the operators that wait for their right operand, and the
parentheses that are still open. `step?` takes in one more token, or refuses it. `outcome?` is the
expression that has been read if no token follows.

An operator is completed when one that binds no tighter follows its right operand, so operators of
equal precedence associate to the left. Unary operators bind tightest. The token that is refused
first decides what is wrong: where an operand is wanted an expression is expected, and behind an
operand a parenthesis must be open.
-/

set_option autoImplicit false
set_option relaxedAutoImplicit false

namespace Lox

/-- An operator that waits for its right operand. -/
inductive Pending
  | unary (token : Token)
  | binary (left : Expr) (token : Token) (operator : BinaryOperator)

namespace Pending

def precedence : Pending → Nat
  | unary _ => 5
  | binary _ _ operator => operator.precedence

/-- The tree of a waiting operator and its right operand. -/
def complete (right : Expr) : Pending → Expr
  | unary token => .unary token right
  | binary left token _ => .binary token left right

/-- Completes the operators that bind at least as tightly as asked, the latest first. -/
def settle (precedence : Nat) (operand : Expr) : List Pending → Expr × List Pending
  | [] => (operand, [])
  | latest :: earlier =>
    if precedence ≤ latest.precedence then settle precedence (latest.complete operand) earlier
    else (operand, latest :: earlier)

/-- Completes all operators. -/
def settleAll (operand : Expr) (pending : List Pending) : Expr :=
  pending.foldl Pending.complete operand

end Pending

/-- What is known of an expression after some of its tokens. Operators and parentheses are listed
from the latest; `pending` holds the operators since the latest open parenthesis, and each entry of
`enclosing` those that waited when a parenthesis was opened. -/
structure Reading where
  operand? : Option Expr
  pending : List Pending
  enclosing : List (List Pending)

/-- What is wrong with a row of tokens. -/
inductive SyntaxFault
  | expectedExpression
  | unclosedParenthesis
deriving DecidableEq

namespace SyntaxFault

/-- The diagnostic that blames the token found. -/
def blame (found : Token) : SyntaxFault → Diagnostic
  | expectedExpression => .expectedExpression found
  | unclosedParenthesis => .unclosedParenthesis found

end SyntaxFault

namespace Reading

/-- Nothing has been read yet. -/
def start : Reading :=
  ⟨none, [], []⟩

/-- Takes in a token where an operand is wanted. -/
def beginOperand? (pending : List Pending) (enclosing : List (List Pending)) (token : Token) :
    Option Reading :=
  match token.kind with
  | .symbol .leftParen => some ⟨none, [], pending :: enclosing⟩
  | kind =>
    match kind.literal?, kind.unaryOperator? with
    | some value, _ => some ⟨some (.literal value), pending, enclosing⟩
    | none, some _ => some ⟨none, .unary token :: pending, enclosing⟩
    | none, none => none

/-- Takes in a token behind an operand. -/
def extendOperand? (operand : Expr) (pending : List Pending) (enclosing : List (List Pending))
    (token : Token) : Option Reading :=
  match token.kind.binaryOperator? with
  | some operator =>
    let (left, earlier) := Pending.settle operator.precedence operand pending
    some ⟨none, .binary left token operator :: earlier, enclosing⟩
  | none =>
    match token.kind, enclosing with
    | .symbol .rightParen, outer :: enclosing =>
      some ⟨some (.group (Pending.settleAll operand pending)), outer, enclosing⟩
    | _, _ => none

/-- Takes in one more token, unless no expression can go on with it. -/
def step? (reading : Reading) (token : Token) : Option Reading :=
  match reading.operand? with
  | none => beginOperand? reading.pending reading.enclosing token
  | some operand => extendOperand? operand reading.pending reading.enclosing token

/-- Takes in tokens as long as an expression can go on with them. Gives what is known then and the
tokens that are left. -/
def run (reading : Reading) : List Token → Reading × List Token
  | [] => (reading, [])
  | token :: rest =>
    match reading.step? token with
    | some next => next.run rest
    | none => (reading, token :: rest)

/-- The expression that has been read, if it may end here. -/
def outcome (reading : Reading) : Except SyntaxFault Expr :=
  match reading.operand?, reading.enclosing with
  | none, _ => .error .expectedExpression
  | some operand, [] => .ok (Pending.settleAll operand reading.pending)
  | some _, _ :: _ => .error .unclosedParenthesis

/-! ### Tokens are taken in from the front -/

@[simp] theorem run_nil (reading : Reading) : reading.run [] = (reading, []) :=
  rfl

theorem run_cons_of_some {reading next : Reading} {token : Token} {rest : List Token}
    (hstep : reading.step? token = some next) : reading.run (token :: rest) = next.run rest := by
  simp [run, hstep]

theorem run_cons_of_none {reading : Reading} {token : Token} {rest : List Token}
    (hstep : reading.step? token = none) :
    reading.run (token :: rest) = (reading, token :: rest) := by
  simp [run, hstep]

/-- The tokens that are left end the tokens that were given. -/
theorem run_suffix (reading : Reading) (tokens : List Token) :
    (reading.run tokens).2 <:+ tokens := by
  induction tokens generalizing reading with
  | nil => exact List.suffix_rfl
  | cons token rest ih =>
    cases hstep : reading.step? token with
    | none =>
      have hleft := congrArg Prod.snd (@run_cons_of_none reading token rest hstep)
      exact hleft ▸ List.suffix_rfl
    | some next =>
      rw [run_cons_of_some hstep]
      exact (ih next).trans (List.suffix_cons _ _)

end Reading

end Lox
