import Lox.Expr.Parser
import Lox.Proofs.Reading.Soundness

/-!
# Where a parser stands

A parser is given a row of tokens and moves over it, up to the first end of input; one is added
behind the row if the row does not end with it (`terminated`). `IsOver` says that a parser is over
a row, wherever it stands, and `Reachable` that it stands where earlier calls have left it. One
call of `parse` takes in a stretch of the row and stops at the token that it then finds
(`exists_parse_eq`).
-/

set_option autoImplicit false
set_option relaxedAutoImplicit false

namespace Lox.Parser

/-! ### The row of tokens -/

/-- The tokens with an end of input behind them, on the line of the last one, unless they end with
an end of input already. -/
def terminated (tokens : List Token) : List Token :=
  if tokens.getLast?.any fun token ↦ token.kind.isEnd then tokens
  else tokens ++ [⟨.endOfInput, "", (tokens.getLast?.map Token.line).getD 1⟩]

theorem isEnd_of_mem_body {tokens : List Token} {token : Token} (hmem : token ∈ body tokens) :
    token.kind.isEnd = false := by
  simpa using List.mem_takeWhile_imp hmem

theorem body_append {before : List Token} (hbefore : ∀ token ∈ before, token.kind.isEnd = false)
    (rest : List Token) : body (before ++ rest) = before ++ body rest :=
  List.takeWhile_append_of_pos fun token hmem ↦ by simp [hbefore token hmem]

theorem find?_eq_head?_dropWhile (tokens : List Token) :
    (tokens.find? fun token ↦ token.kind.isEnd) =
      (tokens.dropWhile fun token ↦ !token.kind.isEnd).head? :=
  tokens.find?_eq_head?_dropWhile_not _

theorem isEnd_finishOf (tokens : List Token) : (finishOf tokens).kind.isEnd = true := by
  unfold finishOf
  cases hfind : tokens.find? fun token ↦ token.kind.isEnd with
  | none => rfl
  | some finish =>
    have hend := List.find?_some hfind
    exact hend

/-- A parser moves over the tokens before the first end of input and stops there. -/
theorem exists_terminated_eq (tokens : List Token) :
    ∃ beyond, terminated tokens = body tokens ++ finishOf tokens :: beyond := by
  have hall : body tokens ++ tokens.dropWhile (fun token ↦ !token.kind.isEnd) = tokens :=
    List.takeWhile_append_dropWhile
  cases hdrop : tokens.dropWhile fun token ↦ !token.kind.isEnd with
  | nil =>
    rw [hdrop, List.append_nil] at hall
    have hfinish : finishOf tokens =
        ⟨.endOfInput, "", (tokens.getLast?.map Token.line).getD 1⟩ := by
      rw [finishOf, find?_eq_head?_dropWhile, hdrop]
      rfl
    have hlast : (tokens.getLast?.any fun token ↦ token.kind.isEnd) = false := by
      cases hlast : tokens.getLast? with
      | none => rfl
      | some last => exact isEnd_of_mem_body (hall.symm ▸ List.mem_of_getLast? hlast)
    exact ⟨[], by simp [terminated, hlast, hall, hfinish]⟩
  | cons finish beyond =>
    rw [hdrop] at hall
    have hfinish : finishOf tokens = finish := by
      rw [finishOf, find?_eq_head?_dropWhile, hdrop]
      rfl
    unfold terminated
    split
    · exact ⟨beyond, by rw [hfinish, hall]⟩
    · refine ⟨beyond ++ [⟨.endOfInput, "", (tokens.getLast?.map Token.line).getD 1⟩], ?_⟩
      rw [hfinish, ← List.cons_append, ← List.append_assoc, hall]

/-- The tokens from one place in the terminated row up to another, which is left out. -/
def between (tokens : List Token) (first last : Nat) : List Token :=
  ((terminated tokens).drop first).take (last - first)

section Between

variable {tokens before taken beyond : List Token} {found : Token}

theorem between_eq (hterminated : terminated tokens = before ++ (taken ++ found :: beyond)) :
    between tokens before.length (before.length + taken.length) = taken := by
  simp [between, hterminated]

theorem getElem?_terminated
    (hterminated : terminated tokens = before ++ (taken ++ found :: beyond)) :
    (terminated tokens)[before.length + taken.length]? = some found := by
  simp [hterminated]

/-- Whatever goes beyond the token found begins with it. -/
theorem exists_between_eq (hterminated : terminated tokens = before ++ (taken ++ found :: beyond))
    {ending : Nat} (hlt : before.length + taken.length < ending) :
    ∃ more, between tokens before.length ending = taken ++ [found] ++ more := by
  obtain ⟨extra, rfl⟩ := Nat.exists_eq_add_of_lt hlt
  refine ⟨beyond.take extra, ?_⟩
  have hsize : before.length + taken.length + extra + 1 - before.length =
      taken.length + (extra + 1) := by omega
  rw [between, hterminated, List.drop_left, hsize, List.take_length_add_append, List.take_succ_cons]
  simp

end Between

/-! ### Parsers over a row -/

/-- A parser is over the given tokens, somewhere before or at the first end of input. -/
structure IsOver (parser : Parser) (tokens : List Token) : Prop where
  tokens_eq : parser.tokens = body tokens
  finish_eq : parser.finish = finishOf tokens

theorem isOver_ofTokens (tokens : List Token) : (ofTokens tokens).IsOver tokens :=
  ⟨rfl, rfl⟩

/-- The parsers that earlier calls leave over the given tokens. -/
inductive Reachable (tokens : List Token) : Parser → Prop
  | start : Reachable tokens (ofTokens tokens)
  | parse {parser : Parser} (hreachable : Reachable tokens parser) :
      Reachable tokens parser.parse.2
  | synchronize {parser : Parser} (hreachable : Reachable tokens parser) :
      Reachable tokens parser.synchronize

theorem Reachable.isOver {tokens : List Token} {parser : Parser}
    (hreachable : Reachable tokens parser) : parser.IsOver tokens := by
  induction hreachable with
  | start => exact isOver_ofTokens tokens
  | parse _ ih => exact ⟨ih.tokens_eq, ih.finish_eq⟩
  | synchronize _ ih => exact ⟨ih.tokens_eq, ih.finish_eq⟩

/-- What stands before the cursor, what was not read, the end of input and what is beyond it. -/
theorem IsOver.exists_terminated_eq {parser : Parser} {tokens : List Token}
    (hover : parser.IsOver tokens) :
    ∃ before beyond, terminated tokens = before ++ (parser.unread ++ parser.finish :: beyond) ∧
      before.length = parser.cursor := by
  obtain ⟨beyond, hbeyond⟩ := Parser.exists_terminated_eq tokens
  rw [← hover.tokens_eq, ← hover.finish_eq] at hbeyond
  refine ⟨parser.tokens.take parser.cursor, beyond, ?_, ?_⟩
  · rw [← List.append_assoc, unread, List.take_append_drop, hbeyond]
  · rw [List.length_take, Nat.min_eq_left parser.cursor_le]

theorem IsOver.isEnd_of_mem_unread {parser : Parser} {tokens : List Token}
    (hover : parser.IsOver tokens) {token : Token} (hmem : token ∈ parser.unread) :
    token.kind.isEnd = false := by
  have hinside := parser.unread_suffix.mem hmem
  rw [hover.tokens_eq] at hinside
  exact isEnd_of_mem_body hinside

theorem IsOver.isEnd_finish {parser : Parser} {tokens : List Token}
    (hover : parser.IsOver tokens) : parser.finish.kind.isEnd = true :=
  hover.finish_eq ▸ isEnd_finishOf tokens

/-! ### One call -/

theorem cursor_add_length_unread (parser : Parser) :
    parser.cursor + parser.unread.length = parser.tokens.length := by
  rw [unread, List.length_drop, Nat.add_sub_cancel' parser.cursor_le]

/-- A parse takes in a stretch of the row and stops at the token found behind it, which it cannot
take in. -/
theorem exists_parse_eq {parser : Parser} {tokens : List Token} (hover : parser.IsOver tokens) :
    ∃ reading before taken found beyond,
      terminated tokens = before ++ (taken ++ found :: beyond) ∧
      before.length = parser.cursor ∧
      Reading.start.after? taken = some reading ∧ reading.step? found = none ∧
      parser.parse.1 = reading.outcome.mapError (SyntaxFault.blame found) ∧
      parser.parse.2.cursor = parser.cursor + taken.length := by
  obtain ⟨before, beyond, hterminated, hlength⟩ := hover.exists_terminated_eq
  obtain ⟨taken, happend, hafter, hrefused⟩ :=
    Reading.start.exists_after?_run parser.unread
  have hcursor : parser.parse.2.cursor = parser.cursor + taken.length := by
    have hunread := parser.cursor_add_length_unread
    have hleft := parser.parse.2.cursor_add_length_unread
    rw [happend, List.length_append] at hunread
    rw [unread_parse, show parser.parse.2.tokens = parser.tokens from rfl] at hleft
    omega
  have hparse : parser.parse.1 = (Reading.start.run parser.unread).1.outcome.mapError
      (SyntaxFault.blame ((Reading.start.run parser.unread).2.headD parser.finish)) := rfl
  rw [happend, List.append_assoc] at hterminated
  cases hleft : (Reading.start.run parser.unread).2 with
  | nil =>
    rw [hleft] at hterminated hparse
    exact ⟨_, before, taken, parser.finish, beyond, hterminated, hlength, hafter,
      Reading.step?_of_isEnd hover.isEnd_finish _, hparse, hcursor⟩
  | cons found left =>
    rw [hleft] at hterminated hparse hrefused
    exact ⟨_, before, taken, found, left ++ parser.finish :: beyond, hterminated, hlength, hafter,
      hrefused found rfl, hparse, hcursor⟩

end Lox.Parser
