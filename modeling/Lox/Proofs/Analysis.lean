import Mathlib
import Lox.Expr.Evaluation

/-!
# Evaluation on kinds

`Expr.kinds` forgets what the literals of a tree are and keeps their kinds. `KindTree.analyze`
evaluates what is left, as evaluation does: operands before their operator and the left one first.
It has its own table of the operators, by the tokens that write them. It fails with what can be said
about a diagnostic of an evaluation without looking at values: what is wrong, the blamed token and
the kinds of the operands (`Diagnostic.kindFault?`). The analysis misses nothing and invents nothing
(`Expr.agrees_analyze`), so what an evaluation comes to is decided by kinds alone
(`outcome_iff_analyze`).
-/

set_option autoImplicit false
set_option relaxedAutoImplicit false

namespace Lox

/-! ### Kinds and faults -/

inductive Kind
  | nil
  | bool
  | number
  | string
deriving DecidableEq

def Value.kind : Value → Kind
  | nil => .nil
  | bool _ => .bool
  | number _ => .number
  | string _ => .string

/-- What is wrong with a tree of which only the kinds of its literals are known. -/
inductive KindFault
  | operandNotNumber (operator : Token)
  | operandsNotNumbers (operator : Token) (left right : Kind)
  | mismatchedOperands (operator : Token) (left right : Kind)
  | unsupported (node : Token) (note : String)

/-- What a diagnostic of an evaluation says but for the values of its operands. -/
def Diagnostic.kindFault? : Diagnostic → Option KindFault
  | operandNotNumber operator => some (.operandNotNumber operator)
  | operandsNotNumbers operator left right =>
    some (.operandsNotNumbers operator left.kind right.kind)
  | mismatchedOperands operator left right =>
    some (.mismatchedOperands operator left.kind right.kind)
  | unsupported node note => some (.unsupported node note)
  | unterminatedString _ | malformedNumeral _ _ | expectedExpression _ | unclosedParenthesis _ =>
    none

/-! ### The analysis -/

/-- Expression trees with kinds in the place of values. -/
inductive KindTree
  | literal (kind : Kind)
  | group (inner : KindTree)
  | unary (operator : Token) (operand : KindTree)
  | binary (operator : Token) (left right : KindTree)
  | assign (name : Token) (assigned : KindTree)

/-- The tree with each literal replaced by its kind. -/
def Expr.kinds : Expr → KindTree
  | literal value => .literal value.kind
  | group inner => .group inner.kinds
  | unary operator operand => .unary operator operand.kinds
  | binary operator left right => .binary operator left.kinds right.kinds
  | assign name assigned => .assign name assigned.kinds

namespace Token

/-- What a token makes of an operand of some kind: `!` takes anything and `-` wants a number. -/
def analyzeUnary (token : Token) (operand : Kind) : Except KindFault Kind :=
  match token.kind, operand with
  | .symbol .bang, _ => .ok .bool
  | .symbol .minus, .number => .ok .number
  | .symbol .minus, _ => .error (.operandNotNumber token)
  | _, _ => .error (.unsupported token "Unknown unary operator.")

/-- Two numbers are wanted and give a value of some kind. -/
def analyzeNumbers (result : Kind) (token : Token) : Kind → Kind → Except KindFault Kind
  | .number, .number => .ok result
  | left, right => .error (.operandsNotNumbers token left right)

/-- Two numbers or two strings are wanted and give a value of their kind. -/
def analyzeSum (token : Token) : Kind → Kind → Except KindFault Kind
  | .number, .number => .ok .number
  | .string, .string => .ok .string
  | left, right => .error (.mismatchedOperands token left right)

/-- What a token makes of two operands of some kinds: equations take anything, comparisons and
arithmetic want numbers, and a sum may also be one of strings. -/
def analyzeBinary (token : Token) (left right : Kind) : Except KindFault Kind :=
  match token.kind with
  | .symbol .equalEqual | .symbol .bangEqual => .ok .bool
  | .symbol .greater | .symbol .greaterEqual | .symbol .less | .symbol .lessEqual =>
    token.analyzeNumbers .bool left right
  | .symbol .minus | .symbol .star | .symbol .slash => token.analyzeNumbers .number left right
  | .symbol .plus => token.analyzeSum left right
  | _ => .error (.unsupported token "Unknown binary operator.")

end Token

/-- The kind of the value of a tree, or what is wrong with it. -/
def KindTree.analyze : KindTree → Except KindFault Kind
  | literal kind => .ok kind
  | group inner => inner.analyze
  | unary operator operand => do
    operator.analyzeUnary (← operand.analyze)
  | binary operator left right => do
    let leftKind ← left.analyze
    let rightKind ← right.analyze
    operator.analyzeBinary leftKind rightKind
  | assign name _ => .error (.unsupported name "Assignment is not supported.")

/-! ### The analysis is exact -/

/-- The analysis says what came of an evaluation. -/
inductive Agrees : Except KindFault Kind → Except Diagnostic Value → Prop
  | ok (value : Value) : Agrees (.ok value.kind) (.ok value)
  | error {fault : KindFault} {diagnostic : Diagnostic}
      (hfault : diagnostic.kindFault? = some fault) : Agrees (.error fault) (.error diagnostic)

namespace Agrees

variable {analysis : Except KindFault Kind} {outcome : Except Diagnostic Value}

theorem eq_ok_iff (hagrees : Agrees analysis outcome) (kind : Kind) :
    analysis = .ok kind ↔ ∃ value, outcome = .ok value ∧ value.kind = kind := by
  cases hagrees with
  | ok value => simp
  | error _ => simp

theorem eq_error_iff (hagrees : Agrees analysis outcome) (fault : KindFault) :
    analysis = .error fault ↔
      ∃ diagnostic, outcome = .error diagnostic ∧ diagnostic.kindFault? = some fault := by
  cases hagrees with
  | ok value => simp
  | error hfault => simp [hfault, eq_comm]

/-- Outcomes of which the analysis says the same are values of one kind, or the same is wrong. -/
theorem alike (hagrees : Agrees analysis outcome) {other : Except Diagnostic Value}
    (hother : Agrees analysis other) :
    (∃ value otherValue, outcome = .ok value ∧ other = .ok otherValue ∧
      otherValue.kind = value.kind) ∨
    ∃ diagnostic otherDiagnostic fault, outcome = .error diagnostic ∧
      other = .error otherDiagnostic ∧ diagnostic.kindFault? = some fault ∧
      otherDiagnostic.kindFault? = some fault := by
  cases hagrees with
  | ok value =>
    obtain ⟨otherValue, hvalue, hkind⟩ := (hother.eq_ok_iff value.kind).mp rfl
    exact .inl ⟨value, otherValue, rfl, hvalue, hkind⟩
  | @error fault diagnostic hfault =>
    obtain ⟨otherDiagnostic, hdiagnostic, hotherFault⟩ := (hother.eq_error_iff fault).mp rfl
    exact .inr ⟨diagnostic, otherDiagnostic, fault, rfl, hdiagnostic, hfault, hotherFault⟩

/-- What follows an operand keeps the agreement if it does so on every value. -/
theorem bind (hagrees : Agrees analysis outcome) {analyze : Kind → Except KindFault Kind}
    {evaluate : Value → Except Diagnostic Value}
    (hnext : ∀ value : Value, Agrees (analyze value.kind) (evaluate value)) :
    Agrees (analysis >>= analyze) (outcome >>= evaluate) := by
  cases hagrees with
  | ok value => exact hnext value
  | error hfault => exact .error hfault

end Agrees

namespace Token

theorem agrees_analyzeUnary (token : Token) (operand : Value) :
    Agrees (token.analyzeUnary operand.kind) (token.applyUnary operand) := by
  obtain ⟨kind, lexeme, line⟩ := token
  cases kind with
  | symbol mark =>
    cases mark with
    | bang => exact .ok (.bool !operand.isTruthy)
    | minus =>
      cases operand with
      | number value => exact .ok (.number (-value))
      | _ => exact .error rfl
    | _ => exact .error rfl
  | _ => exact .error rfl

/-- On numbers an operator gives a value of its kind, and it wants nothing else. -/
theorem agrees_analyzeNumbers {compute : Float → Float → Value} {result : Kind}
    (hresult : ∀ left right, (compute left right).kind = result) (token : Token)
    (left right : Value) :
    Agrees (token.analyzeNumbers result left.kind right.kind)
      (BinaryOperator.onNumbers compute token left right) := by
  cases left <;> cases right
  case number.number left right => exact hresult left right ▸ .ok (compute left right)
  all_goals exact .error rfl

theorem agrees_analyzeSum (token : Token) (left right : Value) :
    Agrees (token.analyzeSum left.kind right.kind) (BinaryOperator.sum token left right) := by
  cases left <;> cases right
  case number.number left right => exact .ok (.number (left + right))
  case string.string left right => exact .ok (.string (left ++ right))
  all_goals exact .error rfl

theorem agrees_analyzeBinary (token : Token) (left right : Value) :
    Agrees (token.analyzeBinary left.kind right.kind) (token.applyBinary left right) := by
  obtain ⟨kind, lexeme, line⟩ := token
  cases kind with
  | symbol mark =>
    cases mark with
    | equalEqual => exact .ok (.bool (left == right))
    | bangEqual => exact .ok (.bool (left != right))
    | greater | greaterEqual | less | lessEqual | minus | star | slash =>
      apply agrees_analyzeNumbers
      exact fun _ _ ↦ rfl
    | plus => exact agrees_analyzeSum _ left right
    | _ => exact .error rfl
  | _ => exact .error rfl

end Token

theorem Expr.agrees_analyze (expression : Expr) :
    Agrees expression.kinds.analyze expression.evaluate := by
  induction expression with
  | literal value => exact .ok value
  | group inner ih => exact ih
  | unary operator operand ih => exact ih.bind operator.agrees_analyzeUnary
  | binary operator left right ihleft ihright =>
    exact ihleft.bind fun leftValue ↦ ihright.bind (operator.agrees_analyzeBinary leftValue)
  | assign name assigned _ => exact .error rfl

/-! ### Kinds alone decide -/

/-- Evaluation gives a value exactly if the analysis gives its kind, and it fails exactly as the
analysis fails. Trees that differ in the values of their literals, but not in their kinds, come to
values of one kind or fail alike. -/
theorem outcome_iff_analyze (expression : Expr) :
    (∀ kind, expression.kinds.analyze = .ok kind ↔
      ∃ value, expression.evaluate = .ok value ∧ value.kind = kind) ∧
    (∀ fault, expression.kinds.analyze = .error fault ↔
      ∃ diagnostic, expression.evaluate = .error diagnostic ∧
        diagnostic.kindFault? = some fault) ∧
    ∀ other : Expr, other.kinds = expression.kinds →
      (∃ value otherValue, expression.evaluate = .ok value ∧ other.evaluate = .ok otherValue ∧
        otherValue.kind = value.kind) ∨
      ∃ diagnostic otherDiagnostic fault, expression.evaluate = .error diagnostic ∧
        other.evaluate = .error otherDiagnostic ∧ diagnostic.kindFault? = some fault ∧
        otherDiagnostic.kindFault? = some fault := by
  refine ⟨expression.agrees_analyze.eq_ok_iff, expression.agrees_analyze.eq_error_iff, ?_⟩
  intro other hkinds
  have hother := other.agrees_analyze
  rw [hkinds] at hother
  exact expression.agrees_analyze.alike hother

def plusToken : Token :=
  ⟨.symbol .plus, "+", 1⟩

/-- The tree of `left / right + "characters"`. -/
def quotientPlusString (left right : Float) (characters : String) : Expr :=
  .binary plusToken
    (.binary ⟨.symbol .slash, "/", 1⟩ (.literal (.number left)) (.literal (.number right)))
    (.literal (.string characters))

/-- The numbers are left as they are: the kinds of the tree do not depend on them. -/
theorem kinds_quotientPlusString (left right : Float) (characters : String) :
    (quotientPlusString left right characters).kinds =
      .binary plusToken (.binary ⟨.symbol .slash, "/", 1⟩ (.literal .number) (.literal .number))
        (.literal .string) :=
  rfl

theorem outcome_quotientPlusString :
    (∃ diagnostic, (quotientPlusString 1 0 "").evaluate = .error diagnostic ∧
      diagnostic.kindFault? = some (.mismatchedOperands plusToken .number .string)) ∧
    (quotientPlusString 2 5 "two").kinds = (quotientPlusString 1 0 "").kinds ∧
    ((∃ value otherValue, (quotientPlusString 1 0 "").evaluate = .ok value ∧
        (quotientPlusString 2 5 "two").evaluate = .ok otherValue ∧
        otherValue.kind = value.kind) ∨
      ∃ diagnostic otherDiagnostic fault, (quotientPlusString 1 0 "").evaluate = .error diagnostic ∧
        (quotientPlusString 2 5 "two").evaluate = .error otherDiagnostic ∧
        diagnostic.kindFault? = some fault ∧ otherDiagnostic.kindFault? = some fault) :=
  have houtcome := outcome_iff_analyze (quotientPlusString 1 0 "")
  have hanalyze : (quotientPlusString 1 0 "").kinds.analyze =
      .error (.mismatchedOperands plusToken .number .string) := by
    rw [kinds_quotientPlusString]
    rfl
  have hkinds : (quotientPlusString 2 5 "two").kinds = (quotientPlusString 1 0 "").kinds := by
    rw [kinds_quotientPlusString, kinds_quotientPlusString]
  ⟨(houtcome.2.1 _).mp hanalyze, hkinds, houtcome.2.2 _ hkinds⟩

end Lox
