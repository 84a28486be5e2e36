import Lox.Proofs.Cursor

/-!
# What a parse answers

The parser reads the grammar, no more and no less. Over the spelling of a stratified tree, with no
binary operator behind it, it answers that tree and stops behind the spelling
(`parse_eq_ok_of_spells`). A tree that it answers is stratified and spelled by the tokens between
the places where it started and stopped, and no longer stretch is an expression
(`spells_of_parse_eq_ok`). If it answers none, it blames the first token with which no expression
goes on, and what stands before that token decides what is wrong (`blame_of_parse_eq_error`).
-/

set_option autoImplicit false
set_option relaxedAutoImplicit false

namespace Lox.Parser

/-! ### Completeness -/

/-- A tree is read from its tokens if the first token behind them is no binary operator. -/
theorem parse_of_unread_eq {expression : Expr} {spelling later : List Token} {parser : Parser}
    (hunread : parser.unread = spelling ++ later) (hstratified : expression.Stratified)
    (hspells : expression.Spells spelling)
    (hlater : ∀ token ∈ later.head?, token.kind.binaryLevel? = none) :
    parser.parse.1 = .ok expression ∧
      parser.parse.2.cursor = parser.cursor + spelling.length := by
  obtain ⟨reading, hrun, houtcome⟩ := Reading.run_spelling hspells hstratified hlater
  rw [← hunread] at hrun
  constructor
  · simp [parse, hrun, houtcome, Except.mapError]
  · have hsize := parser.cursor_add_length_unread
    have hleft := parser.parse.2.cursor_add_length_unread
    have htokens : parser.parse.2.tokens = parser.tokens := rfl
    rw [hunread, List.length_append] at hsize
    rw [unread_parse, hrun, htokens] at hleft
    simp only at hleft
    omega

/-- The tokens of a tree are not cut off where the row ends. -/
theorem body_spelling_append {expression : Expr} {spelling : List Token}
    (hstratified : expression.Stratified) (hspells : expression.Spells spelling)
    (rest : List Token) : body (spelling ++ rest) = spelling ++ body rest :=
  body_append (hspells.isEnd_of_mem hstratified) rest

theorem mem_head?_of_mem_head?_body {rest : List Token} {token : Token}
    (hmem : token ∈ (body rest).head?) : token ∈ rest.head? := by
  rw [body, List.head?_takeWhile] at hmem
  exact Option.eq_some_of_filter_eq_some hmem

/-- A stratified tree is read from its tokens, wherever they stand and whatever follows them, unless
it is a binary operator. -/
theorem parse_eq_ok_of_spells {expression : Expr} {before spelling rest : List Token}
    {parser : Parser} (hstratified : expression.Stratified)
    (hspells : expression.Spells spelling)
    (hbefore : ∀ token ∈ before, token.kind.isEnd = false)
    (hrest : ∀ token ∈ rest.head?, token.kind.binaryLevel? = none)
    (hover : parser.IsOver (before ++ (spelling ++ rest)))
    (hcursor : parser.cursor = before.length) :
    parser.parse.1 = .ok expression ∧
      parser.parse.2.cursor = before.length + spelling.length := by
  have hunread : parser.unread = spelling ++ body rest := by
    rw [unread, hover.tokens_eq, body_append hbefore, hcursor, List.drop_left,
      body_spelling_append hstratified hspells]
  rw [← hcursor]
  exact parse_of_unread_eq hunread hstratified hspells fun token hmem ↦
    hrest token (mem_head?_of_mem_head?_body hmem)

/-- The tree of `1 - -2 * 3 - 4 < 5 == nil`, which has an operator of each level and no group. -/
def mixed : Expr :=
  .binary ⟨.symbol .equalEqual, "==", 1⟩
    (.binary ⟨.symbol .less, "<", 1⟩
      (.binary ⟨.symbol .minus, "-", 1⟩
        (.binary ⟨.symbol .minus, "-", 1⟩ (.literal (.number 1))
          (.binary ⟨.symbol .star, "*", 1⟩
            (.unary ⟨.symbol .minus, "-", 1⟩ (.literal (.number 2))) (.literal (.number 3))))
        (.literal (.number 4)))
      (.literal (.number 5)))
    (.literal .nil)

def mixedTokens : List Token :=
  [⟨.number 1, "1", 1⟩, ⟨.symbol .minus, "-", 1⟩, ⟨.symbol .minus, "-", 1⟩, ⟨.number 2, "2", 1⟩,
    ⟨.symbol .star, "*", 1⟩, ⟨.number 3, "3", 1⟩, ⟨.symbol .minus, "-", 1⟩, ⟨.number 4, "4", 1⟩,
    ⟨.symbol .less, "<", 1⟩, ⟨.number 5, "5", 1⟩, ⟨.symbol .equalEqual, "==", 1⟩,
    ⟨.keyword .nilWord, "nil", 1⟩]

/-- The tokens of `; 1 - -2 * 3 - 4 < 5 == nil ;`. -/
def mixedRow : List Token :=
  [⟨.symbol .semicolon, ";", 1⟩] ++ (mixedTokens ++ [⟨.symbol .semicolon, ";", 1⟩])

theorem stratified_mixed : mixed.Stratified := by
  refine .binary rfl ?_ ?_
    (.binary rfl ?_ ?_
      (.binary rfl ?_ ?_
        (.binary rfl ?_ ?_ (.literal _)
          (.binary rfl ?_ ?_ (.unary .negate ?_ (.literal _)) (.literal _)))
        (.literal _))
      (.literal _))
    (.literal _) <;> decide

theorem spells_mixed : mixed.Spells mixedTokens := by
  have hnumber (value : Float) (lexeme : String) :
      (Expr.literal (.number value)).Spells [⟨.number value, lexeme, 1⟩] :=
    .literal (.number value)
  have hnil : (Expr.literal .nil).Spells [⟨.keyword .nilWord, "nil", 1⟩] := .literal .nil
  exact .binary
    (.binary
      (.binary
        (.binary (hnumber 1 "1") (.binary (.unary (hnumber 2 "2")) (hnumber 3 "3")))
        (hnumber 4 "4"))
      (hnumber 5 "5"))
    hnil

/-- The product is read before the differences, the first difference before the second, both before
the comparison, and that before the equation. -/
theorem parse_mixedRow :
    (ofTokens mixedRow).synchronize.parse.1 = .ok mixed ∧
      (ofTokens mixedRow).synchronize.parse.2.cursor = 13 :=
  parse_eq_ok_of_spells stratified_mixed spells_mixed (by decide) (by decide)
    (Reachable.synchronize .start).isOver rfl

/-! ### Soundness -/

theorem binaryLevel?_of_outcome_eq_ok {reading : Reading} {expression : Expr} {found : Token}
    (houtcome : reading.outcome = .ok expression) (hrefused : reading.step? found = none) :
    found.kind.binaryLevel? = none := by
  obtain ⟨_ | operand, pending, enclosing⟩ := reading
  · cases houtcome
  · exact Reading.binaryLevel?_of_refused hrefused

/-- An answer is spelled by the stretch of tokens that the parse takes in, which cannot go on. -/
theorem exists_spelling_of_parse_eq_ok {parser : Parser} {tokens : List Token}
    {expression : Expr} (hover : parser.IsOver tokens) (hparse : parser.parse.1 = .ok expression) :
    ∃ before spelling found beyond,
      terminated tokens = before ++ (spelling ++ found :: beyond) ∧
      before.length = parser.cursor ∧ parser.parse.2.cursor = before.length + spelling.length ∧
      expression.Stratified ∧ expression.Spells spelling ∧
      found.kind.binaryLevel? = none ∧ ¬ BeginsExpression (spelling ++ [found]) := by
  obtain ⟨reading, before, taken, found, beyond, hterminated, hlength, hafter, hrefused, hanswer,
    hcursor⟩ := exists_parse_eq hover
  have houtcome : reading.outcome = .ok expression := by
    rw [hparse] at hanswer
    cases hcase : reading.outcome with
    | error fault =>
      rw [hcase] at hanswer
      cases hanswer
    | ok answer =>
      rw [hcase] at hanswer
      cases hanswer
      rfl
  obtain ⟨hstratified, hspells⟩ :=
    Reading.outcome_readFrom (Reading.readFrom_after? hafter) houtcome
  exact ⟨before, taken, found, beyond, hterminated, hlength, hlength ▸ hcursor, hstratified,
    hspells, binaryLevel?_of_outcome_eq_ok houtcome hrefused,
    Reading.not_beginsExpression_of_refused hafter hrefused⟩

/-- What a parse answers is a stratified tree that the tokens passed spell. It is the longest: no
binary operator follows, and no longer stretch from the same place is an expression. -/
theorem spells_of_parse_eq_ok {tokens : List Token} {parser last : Parser} {expression : Expr}
    (hreachable : Reachable tokens parser) (hparse : parser.parse = (.ok expression, last)) :
    parser.cursor < last.cursor ∧
      expression.Spells (between tokens parser.cursor last.cursor) ∧
      expression.Stratified ∧
      (∃ next, (terminated tokens)[last.cursor]? = some next ∧
        next.kind.binaryLevel? = none) ∧
      ∀ ending, last.cursor < ending →
        ¬ SpellsExpression (between tokens parser.cursor ending) := by
  obtain ⟨before, spelling, found, beyond, hterminated, hlength, hcursor, hstratified, hspells,
    hfound, hlonger⟩ :=
    exists_spelling_of_parse_eq_ok hreachable.isOver (congrArg Prod.fst hparse)
  rw [hparse] at hcursor
  rw [hcursor, ← hlength]
  refine ⟨?_, ?_, hstratified, ⟨found, getElem?_terminated hterminated, hfound⟩, ?_⟩
  · exact Nat.lt_add_of_pos_right (List.length_pos_iff.mpr hspells.ne_nil)
  · rwa [between_eq hterminated]
  · intro ending hlt hexpression
    obtain ⟨more, hmore⟩ := exists_between_eq hterminated hlt
    rw [hmore] at hexpression
    exact hlonger hexpression.beginsExpression.of_append

theorem spells_between_mixedRow :
    let parser := (ofTokens mixedRow).synchronize
    parser.parse = (.ok mixed, parser.parse.2) ∧ 1 < 13 ∧
      mixed.Spells (between mixedRow 1 13) ∧ mixed.Stratified ∧
      (∃ next, (terminated mixedRow)[13]? = some next ∧ next.kind.binaryLevel? = none) ∧
      ∀ ending, 13 < ending → ¬ SpellsExpression (between mixedRow 1 ending) :=
  have hparse : (ofTokens mixedRow).synchronize.parse =
      (.ok mixed, (ofTokens mixedRow).synchronize.parse.2) := rfl
  ⟨hparse, spells_of_parse_eq_ok (Reachable.synchronize .start) hparse⟩

/-! ### Blame -/

/-- Without an answer the token found is blamed. What was passed begins an expression and nothing
does that goes on with the blamed token. A parenthesis is missing exactly if the tokens passed end
with an operand, and then they have opened more parentheses than they have closed. -/
theorem blame_of_parse_eq_error {tokens : List Token} {parser last : Parser}
    {diagnostic : Diagnostic} (hreachable : Reachable tokens parser)
    (hparse : parser.parse = (.error diagnostic, last)) :
    parser.cursor ≤ last.cursor ∧
      ∃ found passed, (terminated tokens)[last.cursor]? = some found ∧
        passed = between tokens parser.cursor last.cursor ∧
        BeginsExpression passed ∧
        ¬ BeginsExpression (between tokens parser.cursor (last.cursor + 1)) ∧
        (diagnostic = .unclosedParenthesis found ∧ EndsWithOperand passed ∧
            symbolCount .rightParen passed < symbolCount .leftParen passed ∨
          diagnostic = .expectedExpression found ∧ ¬ EndsWithOperand passed) := by
  obtain ⟨reading, before, taken, found, beyond, hterminated, hlength, hafter, hrefused, hanswer,
    hcursor⟩ := exists_parse_eq hreachable.isOver
  rw [hparse] at hanswer hcursor
  simp only at hanswer hcursor
  have hoperand := Reading.isSome_operand?_iff hafter
  have hcount := Reading.length_enclosing_add hafter
  obtain ⟨more, hmore⟩ := exists_between_eq hterminated (Nat.lt_succ_self _)
  rw [hcursor, ← hlength]
  refine ⟨Nat.le_add_right _ _, found, taken, getElem?_terminated hterminated,
    (between_eq hterminated).symm, Reading.beginsExpression_of_after? hafter, ?_, ?_⟩
  · intro hbegins
    rw [hmore] at hbegins
    exact Reading.not_beginsExpression_of_refused hafter hrefused hbegins.of_append
  · obtain ⟨_ | operand, pending, _ | ⟨outer, enclosing⟩⟩ := reading
    · cases hanswer
      exact .inr ⟨rfl, by simpa using hoperand⟩
    · cases hanswer
      exact .inr ⟨rfl, by simpa using hoperand⟩
    · cases hanswer
    · cases hanswer
      simp only [List.length_cons] at hcount
      exact .inl ⟨rfl, hoperand.mp rfl, by omega⟩

/-- The tokens of `(nil ;`. -/
def openRow : List Token :=
  [⟨.symbol .leftParen, "(", 1⟩, ⟨.keyword .nilWord, "nil", 1⟩, ⟨.symbol .semicolon, ";", 1⟩]

theorem blame_openRow :
    let parser := ofTokens openRow
    let diagnostic := Diagnostic.unclosedParenthesis ⟨.symbol .semicolon, ";", 1⟩
    parser.parse = (.error diagnostic, parser.parse.2) ∧ 0 ≤ 2 ∧
      ∃ found passed, (terminated openRow)[2]? = some found ∧ passed = between openRow 0 2 ∧
        BeginsExpression passed ∧ ¬ BeginsExpression (between openRow 0 3) ∧
        (diagnostic = .unclosedParenthesis found ∧ EndsWithOperand passed ∧
            symbolCount .rightParen passed < symbolCount .leftParen passed ∨
          diagnostic = .expectedExpression found ∧ ¬ EndsWithOperand passed) :=
  have hparse : (ofTokens openRow).parse =
      (.error (.unclosedParenthesis ⟨.symbol .semicolon, ";", 1⟩),
        (ofTokens openRow).parse.2) := rfl
  ⟨hparse, blame_of_parse_eq_error .start hparse⟩

end Lox.Parser
