import Lox.Proofs.Cursor
import Lox.Proofs.Relocation

/-!
# Parsing on other lines

A parser has no use for lines. If every token is moved to another line, each step of a reading is
the same but for the lines (`step?_mapLines`), and so is the whole parse: it stops at the same
place, and its tree or its fault is the one that it gives anyway, on the lines to which the tokens
were moved (`parse_mapLines`). The end of input that is added behind a row is on the line of the
last token, and so it moves with the row unless the row is empty (`ofTokens_map`, `terminated_map`).
-/

set_option autoImplicit false
set_option relaxedAutoImplicit false

namespace Lox

variable {change : Nat → Nat}

/-! ### Waiting operators -/

namespace Pending

/-- The waiting operator and its left operand, if it has one, on other lines. -/
def mapLines (change : Nat → Nat) : Pending → Pending
  | unary token => .unary (token.mapLine change)
  | binary left token operator => .binary (left.mapLines change) (token.mapLine change) operator

theorem precedence_mapLines (pending : Pending) :
    (pending.mapLines change).precedence = pending.precedence := by
  cases pending <;> rfl

theorem complete_mapLines (pending : Pending) (right : Expr) :
    (pending.mapLines change).complete (right.mapLines change) =
      (pending.complete right).mapLines change := by
  cases pending <;> rfl

theorem settle_mapLines (precedence : Nat) (operand : Expr) (pending : List Pending) :
    settle precedence (operand.mapLines change) (pending.map (mapLines change)) =
      ((settle precedence operand pending).1.mapLines change,
        (settle precedence operand pending).2.map (mapLines change)) := by
  induction pending generalizing operand with
  | nil => rfl
  | cons latest earlier ih =>
    rw [List.map_cons, settle, settle, precedence_mapLines]
    split
    · rw [complete_mapLines, ih]
    · rfl

theorem settleAll_mapLines (operand : Expr) (pending : List Pending) :
    settleAll (operand.mapLines change) (pending.map (mapLines change)) =
      (settleAll operand pending).mapLines change := by
  induction pending generalizing operand with
  | nil => rfl
  | cons latest earlier ih =>
    have hfold := ih (latest.complete operand)
    rw [← complete_mapLines] at hfold
    exact hfold

end Pending

/-! ### Readings -/

namespace Reading

/-- The reading with all its tokens on other lines. -/
def mapLines (change : Nat → Nat) (reading : Reading) : Reading where
  operand? := reading.operand?.map (Expr.mapLines change)
  pending := reading.pending.map (Pending.mapLines change)
  enclosing := reading.enclosing.map (List.map (Pending.mapLines change))

theorem beginOperand?_mapLines (pending : List Pending) (enclosing : List (List Pending))
    (token : Token) :
    beginOperand? (pending.map (Pending.mapLines change))
        (enclosing.map (List.map (Pending.mapLines change))) (token.mapLine change) =
      (beginOperand? pending enclosing token).map (mapLines change) := by
  unfold beginOperand?
  rw [Token.kind_mapLine]
  split
  case h_1 => rfl
  case h_2 => split <;> rfl

theorem extendOperand?_mapLines (operand : Expr) (pending : List Pending)
    (enclosing : List (List Pending)) (token : Token) :
    extendOperand? (operand.mapLines change) (pending.map (Pending.mapLines change))
        (enclosing.map (List.map (Pending.mapLines change))) (token.mapLine change) =
      (extendOperand? operand pending enclosing token).map (mapLines change) := by
  unfold extendOperand?
  rw [Token.kind_mapLine]
  cases token.kind.binaryOperator? with
  | some operator =>
    simp only [Pending.settle_mapLines]
    rfl
  | none =>
    -- Only a parenthesis that closes an open one is taken in.
    generalize token.kind = kind
    cases enclosing with
    | nil =>
      cases kind with
      | symbol mark => cases mark <;> rfl
      | _ => rfl
    | cons outer enclosing =>
      cases kind with
      | symbol mark =>
        cases mark with
        | rightParen =>
          simp only [List.map_cons, Pending.settleAll_mapLines]
          rfl
        | _ => rfl
      | _ => rfl

theorem step?_mapLines (reading : Reading) (token : Token) :
    (reading.mapLines change).step? (token.mapLine change) =
      (reading.step? token).map (mapLines change) := by
  obtain ⟨_ | operand, pending, enclosing⟩ := reading
  · exact beginOperand?_mapLines pending enclosing token
  · exact extendOperand?_mapLines operand pending enclosing token

theorem run_mapLines (reading : Reading) (tokens : List Token) :
    (reading.mapLines change).run (tokens.map (Token.mapLine change)) =
      ((reading.run tokens).1.mapLines change,
        (reading.run tokens).2.map (Token.mapLine change)) := by
  induction tokens generalizing reading with
  | nil => rfl
  | cons token rest ih =>
    have hmapped := @step?_mapLines change reading token
    rw [List.map_cons]
    cases hstep : reading.step? token with
    | none =>
      rw [hstep] at hmapped
      rw [run_cons_of_none hstep, run_cons_of_none hmapped, List.map_cons]
    | some next =>
      rw [hstep] at hmapped
      rw [run_cons_of_some hstep, run_cons_of_some hmapped, ih]

theorem outcome_mapLines (reading : Reading) :
    (reading.mapLines change).outcome = reading.outcome.map (Expr.mapLines change) := by
  obtain ⟨_ | operand, pending, _ | ⟨outer, enclosing⟩⟩ := reading
  · rfl
  · rfl
  · exact congrArg Except.ok (Pending.settleAll_mapLines operand pending)
  · rfl

end Reading

/-! ### Parsers -/

namespace Parser

/-- The parser over the same tokens on other lines. -/
def mapLines (change : Nat → Nat) (parser : Parser) : Parser where
  tokens := parser.tokens.map (Token.mapLine change)
  finish := parser.finish.mapLine change
  cursor := parser.cursor
  cursor_le := by
    rw [List.length_map]
    exact parser.cursor_le

theorem unread_mapLines (parser : Parser) :
    (parser.mapLines change).unread = parser.unread.map (Token.mapLine change) :=
  (List.map_drop).symm

theorem standingBefore_mapLines (parser : Parser) (unread : List Token) :
    (parser.mapLines change).standingBefore (unread.map (Token.mapLine change)) =
      (parser.standingBefore unread).mapLines change := by
  simp only [standingBefore, mapLines, List.length_map]

theorem mapError_blame_mapLine (found : Token) (outcome : Except SyntaxFault Expr) :
    (outcome.map (Expr.mapLines change)).mapError (SyntaxFault.blame (found.mapLine change)) =
      ((outcome.mapError (SyntaxFault.blame found)).map (Expr.mapLines change)).mapError
        (Diagnostic.mapLine change) := by
  cases outcome with
  | error fault => cases fault <;> rfl
  | ok expression => rfl

/-- Tokens on other lines are parsed in the same way, but for the lines. -/
theorem parse_mapLines (parser : Parser) :
    (parser.mapLines change).parse =
      ((parser.parse.1.map (Expr.mapLines change)).mapError (Diagnostic.mapLine change),
        parser.parse.2.mapLines change) := by
  have hstart : Reading.start.mapLines change = Reading.start := rfl
  have hrun := @Reading.run_mapLines change Reading.start parser.unread
  rw [hstart, ← unread_mapLines] at hrun
  have hfinish : (parser.mapLines change).finish = parser.finish.mapLine change := rfl
  simp only [parse, hrun, hfinish, Reading.outcome_mapLines, standingBefore_mapLines,
    ← mapError_blame_mapLine]
  cases (Reading.start.run parser.unread).2 <;> rfl

/-! ### Rows -/

variable {row : List Token}

theorem body_map (row : List Token) :
    body (row.map (Token.mapLine change)) = (body row).map (Token.mapLine change) :=
  List.takeWhile_map

/-- The line of the last token moves with it, unless there is none. -/
theorem line_getLast?_map (hne : row ≠ []) :
    ((row.map (Token.mapLine change)).getLast?.map Token.line).getD 1 =
      change ((row.getLast?.map Token.line).getD 1) := by
  rw [List.getLast?_map, List.getLast?_eq_some_getLast hne]
  rfl

theorem finishOf_map (hne : row ≠ []) :
    finishOf (row.map (Token.mapLine change)) = (finishOf row).mapLine change := by
  have hfind : (row.map (Token.mapLine change)).find? (fun token ↦ token.kind.isEnd) =
      (row.find? fun token ↦ token.kind.isEnd).map (Token.mapLine change) := List.find?_map
  rw [finishOf, finishOf, hfind, line_getLast?_map hne]
  cases row.find? fun token ↦ token.kind.isEnd <;> rfl

theorem terminated_map (hne : row ≠ []) :
    terminated (row.map (Token.mapLine change)) = (terminated row).map (Token.mapLine change) := by
  have hlast : ((row.map (Token.mapLine change)).getLast?.any fun token ↦ token.kind.isEnd) =
      row.getLast?.any fun token ↦ token.kind.isEnd := by
    rw [List.getLast?_map]
    cases row.getLast? <;> rfl
  rw [terminated, terminated, hlast, line_getLast?_map hne]
  split
  · rfl
  · rw [List.map_append]
    rfl

theorem ofTokens_map (hne : row ≠ []) :
    ofTokens (row.map (Token.mapLine change)) = (ofTokens row).mapLines change := by
  simp only [ofTokens, mapLines, body_map, finishOf_map hne]

end Parser

end Lox
