import Lox.Expr.Reading

/-!
# Parsing

A parser is a place in a row of tokens. `parse` reads the longest expression from there and leaves
the place behind it, or at the token that no expression can go on with. `synchronize` looks for the
next place where a statement may begin.
-/

set_option autoImplicit false
set_option relaxedAutoImplicit false

namespace Lox

/-- A place in a row of tokens that holds no end of input. The token `finish` stands behind them
all, and whatever is wrong at the end is blamed on it. -/
structure Parser where
  tokens : List Token
  finish : Token
  cursor : Nat
  cursor_le : cursor ≤ tokens.length

namespace Parser

/-- The tokens before the first end of input. -/
def body (tokens : List Token) : List Token :=
  tokens.takeWhile fun token ↦ !token.kind.isEnd

/-- The first end of input; if there is none, one on the line of the last token. -/
def finishOf (tokens : List Token) : Token :=
  (tokens.find? fun token ↦ token.kind.isEnd).getD
    ⟨.endOfInput, "", (tokens.getLast?.map Token.line).getD 1⟩

/-- The parser that stands at the first of the given tokens. -/
def ofTokens (tokens : List Token) : Parser :=
  ⟨body tokens, finishOf tokens, 0, Nat.zero_le _⟩

/-- The tokens that have not been read. -/
def unread (parser : Parser) : List Token :=
  parser.tokens.drop parser.cursor

/-- The parser over the same tokens that stands before the given last ones. -/
def standingBefore (parser : Parser) (unread : List Token) : Parser :=
  ⟨parser.tokens, parser.finish, parser.tokens.length - unread.length, Nat.sub_le _ _⟩

/-- Reads the longest expression that begins here. -/
def parse (parser : Parser) : Except Diagnostic Expr × Parser :=
  let (reading, unread) := Reading.start.run parser.unread
  (reading.outcome.mapError (SyntaxFault.blame (unread.headD parser.finish)),
    parser.standingBefore unread)

/-- What is left of some tokens behind the first at which a statement may begin: just behind a
semicolon, or before a keyword that begins a statement. At least one token is passed. -/
def afterStatement : List Token → List Token
  | [] => []
  | token :: rest =>
    match token.kind, rest with
    | .symbol .semicolon, _ => rest
    | _, [] => []
    | _, next :: _ => if next.kind.beginsStatement then rest else afterStatement rest

/-- Goes on to the next place where a statement may begin. -/
def synchronize (parser : Parser) : Parser :=
  parser.standingBefore (afterStatement parser.unread)

/-! ### What is left unread -/

theorem unread_suffix (parser : Parser) : parser.unread <:+ parser.tokens :=
  List.drop_suffix _ _

theorem unread_standingBefore {parser : Parser} {unread : List Token}
    (hsuffix : unread <:+ parser.tokens) : (parser.standingBefore unread).unread = unread :=
  (List.suffix_iff_eq_drop.mp hsuffix).symm

theorem unread_parse (parser : Parser) :
    parser.parse.2.unread = (Reading.start.run parser.unread).2 :=
  unread_standingBefore ((Reading.run_suffix _ _).trans parser.unread_suffix)

theorem afterStatement_suffix (tokens : List Token) : afterStatement tokens <:+ tokens := by
  fun_induction afterStatement tokens with
  | case1 => exact List.suffix_rfl
  | case2 => exact List.suffix_cons _ _
  | case3 => exact List.nil_suffix
  | case4 => exact List.suffix_cons _ _
  | case5 token next rest _ _ ih => exact ih.trans (List.suffix_cons _ _)

theorem unread_synchronize (parser : Parser) :
    parser.synchronize.unread = afterStatement parser.unread :=
  unread_standingBefore ((afterStatement_suffix _).trans parser.unread_suffix)

end Parser

end Lox
