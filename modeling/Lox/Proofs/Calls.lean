import Lox.Proofs.Parsing

/-!
# Calls of one parser

A parser can be asked for any number of parses and synchronizations, in any order, and a parse that
fails leaves the cursor where it stopped. What a call answers and how far it moves depend on the
tokens that are unread and on the end of input alone (`perform_agrees`), so a parser made of the
rest of the row does the same. No call goes back or beyond the first end of input, and each goes on
that answers a tree or skips a token (`Reachable.orderly`). What stands behind the first end has no
effect on any run of calls (`calls_orderly`).
-/

set_option autoImplicit false
set_option relaxedAutoImplicit false

namespace Lox.Parser

/-! ### Calls -/

/-- What a parser can be asked for. -/
inductive Call
  | parse
  | synchronize

/-- The tokens that a call leaves unread. -/
def Call.leaves : Call → List Token → List Token
  | parse, unread => (Reading.start.run unread).2
  | synchronize, unread => afterStatement unread

theorem Call.leaves_suffix (call : Call) (unread : List Token) : call.leaves unread <:+ unread := by
  cases call with
  | parse => exact Reading.run_suffix _ _
  | synchronize => exact afterStatement_suffix _

/-- The answer of a call, if it gives one, and the parser that it leaves. -/
def perform (parser : Parser) : Call → Option (Except Diagnostic Expr) × Parser
  | .parse => (some parser.parse.1, parser.parse.2)
  | .synchronize => (none, parser.synchronize)

/-- The parser that calls leave, one after the other. -/
def after (parser : Parser) (calls : List Call) : Parser :=
  calls.foldl (fun reached call ↦ (reached.perform call).2) parser

/-- What can be seen of calls: the answer of each, and the cursor behind it. -/
def trace (parser : Parser) : List Call → List (Option (Except Diagnostic Expr) × Nat)
  | [] => []
  | call :: later =>
    let (answer, next) := parser.perform call
    (answer, next.cursor) :: next.trace later

theorem Reachable.perform {tokens : List Token} {parser : Parser}
    (hreachable : Reachable tokens parser) (call : Call) :
    Reachable tokens (parser.perform call).2 := by
  cases call with
  | parse => exact hreachable.parse
  | synchronize => exact hreachable.synchronize

theorem Reachable.after {tokens : List Token} {parser : Parser}
    (hreachable : Reachable tokens parser) (calls : List Call) :
    Reachable tokens (parser.after calls) := by
  induction calls generalizing parser with
  | nil => exact hreachable
  | cons call _ ih => exact ih (hreachable.perform call)

/-! ### One call -/

section Perform

variable {parser other : Parser}

theorem tokens_perform (parser : Parser) (call : Call) :
    (parser.perform call).2.tokens = parser.tokens := by
  cases call <;> rfl

theorem unread_perform (parser : Parser) (call : Call) :
    (parser.perform call).2.unread = call.leaves parser.unread := by
  cases call with
  | parse => exact parser.unread_parse
  | synchronize => exact parser.unread_synchronize

theorem cursor_perform (parser : Parser) (call : Call) :
    (parser.perform call).2.cursor + (call.leaves parser.unread).length =
      parser.cursor + parser.unread.length := by
  rw [← unread_perform, cursor_add_length_unread, cursor_add_length_unread, tokens_perform]

theorem cursor_le_cursor_perform (parser : Parser) (call : Call) :
    parser.cursor ≤ (parser.perform call).2.cursor := by
  have hcursor := parser.cursor_perform call
  have hleft := (call.leaves_suffix parser.unread).length_le
  omega

/-- Parsers that have the same to read answer alike and move equally far. -/
theorem perform_agrees (hunread : parser.unread = other.unread)
    (hfinish : parser.finish = other.finish) (call : Call) :
    (parser.perform call).1 = (other.perform call).1 ∧
      (parser.perform call).2.cursor + other.cursor =
        (other.perform call).2.cursor + parser.cursor := by
  constructor
  · cases call with
    | parse => simp only [perform, Parser.parse, hunread, hfinish]
    | synchronize => rfl
  · have hcursor := parser.cursor_perform call
    have hotherCursor := other.cursor_perform call
    rw [hunread] at hcursor
    omega

/-- A tree that is answered has been read from one token at least. -/
theorem IsOver.cursor_lt_cursor_parse {tokens : List Token} {expression : Expr}
    (hover : parser.IsOver tokens) (hanswer : parser.parse.1 = .ok expression) :
    parser.cursor < parser.parse.2.cursor := by
  obtain ⟨before, spelling, _, _, _, hlength, hcursor, _, hspells, _⟩ :=
    exists_spelling_of_parse_eq_ok hover hanswer
  rw [hcursor, ← hlength]
  exact Nat.lt_add_of_pos_right (List.length_pos_iff.mpr hspells.ne_nil)

/-- A token at least is skipped if there is one. -/
theorem length_afterStatement_lt {tokens : List Token} (hne : tokens ≠ []) :
    (afterStatement tokens).length < tokens.length := by
  fun_induction afterStatement tokens with
  | case1 => exact absurd rfl hne
  | case5 token next rest _ _ ih => exact Nat.lt_succ_of_lt (ih (List.cons_ne_nil _ _))
  | _ => simp

theorem cursor_lt_cursor_synchronize (hunread : parser.unread ≠ []) :
    parser.cursor < parser.synchronize.cursor := by
  have hcursor : parser.synchronize.cursor + (afterStatement parser.unread).length =
      parser.cursor + parser.unread.length := parser.cursor_perform .synchronize
  have hlength := length_afterStatement_lt hunread
  omega

end Perform

/-! ### The first end of input -/

/-- The place of the first end of input in a row. -/
def firstEnd (row : List Token) : Nat :=
  row.findIdx fun token ↦ token.kind.isEnd

section FirstEnd

variable {before beyond : List Token} {finish : Token}

theorem firstEnd_append (hbefore : ∀ token ∈ before, token.kind.isEnd = false)
    (hfinish : finish.kind.isEnd = true) :
    firstEnd (before ++ finish :: beyond) = before.length := by
  have hnone : before.findIdx (fun token ↦ token.kind.isEnd) = before.length :=
    List.findIdx_eq_length_of_false hbefore
  rw [firstEnd, List.findIdx_append, hnone, if_neg (Nat.lt_irrefl _), List.findIdx_cons, hfinish]
  exact Nat.zero_add _

/-- A parser is made of what stands up to the first end of input. -/
theorem ofTokens_append (hbefore : ∀ token ∈ before, token.kind.isEnd = false)
    (hfinish : finish.kind.isEnd = true) :
    ofTokens (before ++ finish :: beyond) = ⟨before, finish, 0, Nat.zero_le _⟩ := by
  have hbody : body (before ++ finish :: beyond) = before := by
    have hrest : body (finish :: beyond) = [] := List.takeWhile_cons_of_neg (by simp [hfinish])
    rw [body_append hbefore, hrest, List.append_nil]
  have hfind : finishOf (before ++ finish :: beyond) = finish := by
    have hnone : (before.find? fun token ↦ token.kind.isEnd) = none :=
      List.find?_eq_none.mpr fun token hmem ↦ by simp [hbefore token hmem]
    have hfirst : ((finish :: beyond).find? fun token ↦ token.kind.isEnd) = some finish :=
      List.find?_cons_of_pos hfinish
    rw [finishOf, List.find?_append, hnone, Option.none_or, hfirst]
    rfl
  simp only [ofTokens, hbody, hfind]

end FirstEnd

/-- The row is the body, the first end of input and what is beyond it. -/
theorem firstEnd_terminated (tokens : List Token) :
    firstEnd (terminated tokens) = (body tokens).length := by
  obtain ⟨beyond, hterminated⟩ := exists_terminated_eq tokens
  rw [hterminated]
  exact firstEnd_append (fun _ ↦ isEnd_of_mem_body) (isEnd_finishOf tokens)

theorem firstEnd_lt_length_terminated (tokens : List Token) :
    firstEnd (terminated tokens) < (terminated tokens).length := by
  obtain ⟨beyond, hterminated⟩ := exists_terminated_eq tokens
  rw [firstEnd_terminated, hterminated, List.length_append, List.length_cons]
  omega

/-- What is beyond the first end of input may be anything. -/
theorem ofTokens_take_append (tokens beyond : List Token) :
    ofTokens ((terminated tokens).take (firstEnd (terminated tokens) + 1) ++ beyond) =
      ofTokens tokens := by
  obtain ⟨more, hterminated⟩ := exists_terminated_eq tokens
  have htake : (terminated tokens).take (firstEnd (terminated tokens) + 1) =
      body tokens ++ [finishOf tokens] := by
    rw [firstEnd_terminated, hterminated, List.take_length_add_append]
    rfl
  rw [htake, List.append_assoc]
  exact ofTokens_append (fun _ ↦ isEnd_of_mem_body) (isEnd_finishOf tokens)

/-- A parser over the rest of the row has the same to read. -/
theorem IsOver.unread_ofTokens_drop {parser : Parser} {tokens : List Token}
    (hover : parser.IsOver tokens) :
    let fresh := ofTokens ((terminated tokens).drop parser.cursor)
    parser.unread = fresh.unread ∧ parser.finish = fresh.finish := by
  intro fresh
  obtain ⟨before, beyond, hterminated, hlength⟩ := hover.exists_terminated_eq
  have hfresh : fresh = ⟨parser.unread, parser.finish, 0, Nat.zero_le _⟩ := by
    simp only [fresh, hterminated, ← hlength, List.drop_left]
    exact ofTokens_append (fun _ ↦ hover.isEnd_of_mem_unread) hover.isEnd_finish
  rw [hfresh]
  exact ⟨rfl, rfl⟩

/-! ### Runs of calls -/

/-- What a call does to the cursor over a row and what it depends on: the cursor does not go back or
beyond the first end of input, which is in the row; it goes on with each tree that is answered and
each synchronization that does not begin at an end; and a parser over the rest of the row answers
the same and moves as far. -/
structure Orderly (row : List Token) (parser : Parser) (call : Call) : Prop where
  cursor_le : parser.cursor ≤ (parser.perform call).2.cursor
  le_firstEnd : (parser.perform call).2.cursor ≤ firstEnd row
  firstEnd_lt : firstEnd row < row.length
  lt_of_answer : ∀ expression, (parser.perform call).1 = some (.ok expression) →
    parser.cursor < (parser.perform call).2.cursor
  lt_of_synchronize : call = .synchronize →
    (∀ token ∈ row[parser.cursor]?, token.kind.isEnd = false) →
    parser.cursor < (parser.perform call).2.cursor
  answer_eq : (parser.perform call).1 =
    ((ofTokens (row.drop parser.cursor)).perform call).1
  cursor_eq : (parser.perform call).2.cursor =
    parser.cursor + ((ofTokens (row.drop parser.cursor)).perform call).2.cursor

theorem Reachable.orderly {tokens : List Token} {parser : Parser}
    (hreachable : Reachable tokens parser) (call : Call) :
    Orderly (terminated tokens) parser call := by
  have hover := hreachable.isOver
  obtain ⟨hunread, hfinish⟩ := hover.unread_ofTokens_drop
  obtain ⟨hanswer, hmoved⟩ := perform_agrees hunread hfinish call
  refine ⟨parser.cursor_le_cursor_perform call, ?_, firstEnd_lt_length_terminated tokens, ?_, ?_,
    hanswer, ?_⟩
  · rw [firstEnd_terminated, ← hover.tokens_eq, ← tokens_perform parser call]
    exact (parser.perform call).2.cursor_le
  · intro expression hanswer
    cases call with
    | parse =>
      exact hover.cursor_lt_cursor_parse (Option.some.inj hanswer)
    | synchronize => cases hanswer
  · rintro rfl hnot
    refine cursor_lt_cursor_synchronize fun hnil ↦ ?_
    obtain ⟨before, beyond, hterminated, hlength⟩ := hover.exists_terminated_eq
    have hplace : (terminated tokens)[parser.cursor]? = some parser.finish := by
      simp [hterminated, hnil, ← hlength]
    have hend := hover.isEnd_finish
    rw [hnot _ hplace] at hend
    cases hend
  · exact hmoved.trans (Nat.add_comm _ _)

/-- The next call is in order, whatever calls there have been, and these give the same answers and
cursors with anything else behind the first end of input. The row is the one that the parser goes
over, so the end that is put behind the given tokens is in it. -/
theorem calls_orderly (tokens : List Token) (calls : List Call) :
    (∀ call, Orderly (terminated tokens) ((ofTokens tokens).after calls) call) ∧
      ∀ beyond, (ofTokens
        ((terminated tokens).take (firstEnd (terminated tokens) + 1) ++ beyond)).trace calls =
          (ofTokens tokens).trace calls := by
  refine ⟨(Reachable.start.after calls).orderly, fun beyond ↦ ?_⟩
  rw [ofTokens_take_append]

/-- The tokens of `nil * ; nil`, an end of input and a token beyond it. -/
def endedRow : List Token :=
  [⟨.keyword .nilWord, "nil", 1⟩, ⟨.symbol .star, "*", 1⟩, ⟨.symbol .semicolon, ";", 1⟩,
    ⟨.keyword .nilWord, "nil", 1⟩, ⟨.endOfInput, "", 1⟩, ⟨.keyword .trueWord, "true", 2⟩]

/-- The first parse fails at the semicolon, which is skipped before the second. -/
theorem calls_orderly_endedRow :
    let failed := (ofTokens endedRow).after [.parse]
    let resumed := (ofTokens endedRow).after [.parse, .synchronize]
    failed.cursor = 2 ∧ 2 < (failed.perform .synchronize).2.cursor ∧
      resumed.cursor = 3 ∧ (resumed.perform .parse).1 = some (.ok (.literal .nil)) ∧
      3 < (resumed.perform .parse).2.cursor ∧ (resumed.perform .parse).2.cursor ≤ 4 ∧
      (resumed.perform .parse).1 = ((ofTokens ((terminated endedRow).drop 3)).perform .parse).1 ∧
      ∀ beyond, (ofTokens (endedRow.take 5 ++ beyond)).trace [.parse, .synchronize] =
        (ofTokens endedRow).trace [.parse, .synchronize] := by
  intro failed resumed
  obtain ⟨hfailed, _⟩ := calls_orderly endedRow [.parse]
  obtain ⟨hresumed, hbeyond⟩ := calls_orderly endedRow [.parse, .synchronize]
  have hanswer : (resumed.perform .parse).1 = some (.ok (.literal .nil)) := rfl
  have hsemicolon : ∀ token ∈ (terminated endedRow)[failed.cursor]?, token.kind.isEnd = false := by
    rintro _ ⟨⟩
    rfl
  exact ⟨rfl, (hfailed .synchronize).lt_of_synchronize rfl hsemicolon, rfl, hanswer,
    (hresumed .parse).lt_of_answer _ hanswer, (hresumed .parse).le_firstEnd,
    (hresumed .parse).answer_eq, hbeyond⟩

end Lox.Parser
