import Lox.Proofs.Blame
import Lox.Proofs.Calls

/-!
# Recovery behind a fault

A parser that has found a fault goes on where a statement may begin. The row alone tells which
places these are: an end of input or a word that begins a statement stands there, or a semicolon
stands just before (`IsBoundary`). A parser at an end of input stays there (`synchronize_eq_self`),
and from any other place a synchronization goes to the least boundary behind it
(`isLeast_synchronize`). The induction is on the tokens that are skipped: either the next place is a
boundary, or the least one behind the next place is the one sought.

A parse that fails stops at the token that it blames. From there the parser goes on just behind the
first semicolon, unless a word that begins a statement or an end of input comes before it; none of
these is skipped (`ResumesAt`). The main statement puts both together
(`synchronize_reaches_next_boundary`).
-/

set_option autoImplicit false
set_option relaxedAutoImplicit false

namespace Lox

/-- The words that begin a statement. -/
def Keyword.statementWords : List Keyword :=
  [classWord, funWord, varWord, forWord, ifWord, whileWord, printWord, returnWord]

theorem Keyword.mem_statementWords_iff (word : Keyword) :
    word ∈ statementWords ↔ word.beginsStatement = true := by
  cases word <;> decide

theorem TokenKind.beginsStatement_iff {kind : TokenKind} :
    kind.beginsStatement = true ↔ ∃ word ∈ Keyword.statementWords, kind = .keyword word := by
  constructor
  · intro hbegins
    cases kind with
    | keyword word => exact ⟨word, word.mem_statementWords_iff.mpr hbegins, rfl⟩
    | _ => cases hbegins
  · rintro ⟨word, hword, rfl⟩
    exact word.mem_statementWords_iff.mp hword

theorem TokenKind.isEnd_iff {kind : TokenKind} : kind.isEnd = true ↔ kind = .endOfInput := by
  cases kind <;> simp [isEnd]

namespace Parser

/-! ### Boundaries -/

/-- The kind of the token at a place of a row. -/
def kindAt? (row : List Token) (place : Nat) : Option TokenKind :=
  row[place]?.map Token.kind

/-- The places of a row at which a statement may begin. -/
inductive IsBoundary (row : List Token) : Nat → Prop
  | atEnd {place : Nat} (hkind : kindAt? row place = some .endOfInput) : IsBoundary row place
  | atWord {place : Nat} {word : Keyword} (hword : word ∈ Keyword.statementWords)
      (hkind : kindAt? row place = some (.keyword word)) : IsBoundary row place
  | behindSemicolon {place : Nat} (hkind : kindAt? row place = some (.symbol .semicolon)) :
      IsBoundary row (place + 1)

/-- The boundaries of a row that are behind a place. -/
def boundariesBehind (row : List Token) (start : Nat) : Set Nat :=
  {place | start < place ∧ IsBoundary row place}

theorem kindAt?_append_cons (before : List Token) (token : Token) (behind : List Token) :
    kindAt? (before ++ token :: behind) before.length = some token.kind := by
  simp [kindAt?]

theorem kindAt?_append_cons_cons (before : List Token) (token next : Token)
    (behind : List Token) :
    kindAt? (before ++ token :: next :: behind) (before.length + 1) = some next.kind := by
  simp [kindAt?]

section Next

variable {row : List Token} {start : Nat}

theorem isLeast_of_isBoundary_next (hnext : IsBoundary row (start + 1)) :
    IsLeast (boundariesBehind row start) (start + 1) :=
  ⟨⟨Nat.lt_succ_self start, hnext⟩, fun _ hplace ↦ hplace.1⟩

theorem isLeast_of_not_isBoundary_next {reached : Nat} (hnext : ¬ IsBoundary row (start + 1))
    (hleast : IsLeast (boundariesBehind row (start + 1)) reached) :
    IsLeast (boundariesBehind row start) reached := by
  refine ⟨⟨Nat.lt_of_succ_lt hleast.1.1, hleast.1.2⟩, ?_⟩
  rintro place ⟨hlt, hboundary⟩
  have hne : start + 1 ≠ place := by
    rintro rfl
    exact hnext hboundary
  exact hleast.2 ⟨Nat.lt_of_le_of_ne hlt hne, hboundary⟩

end Next

theorem not_isBoundary_next {before behind : List Token} {token next : Token}
    (hsemicolon : token.kind ≠ .symbol .semicolon) (hword : next.kind.beginsStatement = false)
    (hend : next.kind.isEnd = false) :
    ¬ IsBoundary (before ++ token :: next :: behind) (before.length + 1) := by
  intro hboundary
  cases hboundary with
  | atEnd hkind =>
    rw [kindAt?_append_cons_cons, Option.some.injEq] at hkind
    rw [TokenKind.isEnd_iff.mpr hkind] at hend
    cases hend
  | atWord hmem hkind =>
    rw [kindAt?_append_cons_cons, Option.some.injEq] at hkind
    rw [TokenKind.beginsStatement_iff.mpr ⟨_, hmem, hkind⟩] at hword
    cases hword
  | behindSemicolon hkind =>
    rw [kindAt?_append_cons, Option.some.injEq] at hkind
    exact hsemicolon hkind

/-! ### One synchronization -/

/-- The tokens that are left from where a statement may begin are those from the least boundary. -/
theorem isLeast_afterStatement {before unread beyond : List Token} {finish : Token}
    {reached : Nat} (hne : unread ≠ []) (hunread : ∀ token ∈ unread, token.kind.isEnd = false)
    (hfinish : finish.kind.isEnd = true)
    (hreached : reached + (afterStatement unread).length = before.length + unread.length) :
    IsLeast (boundariesBehind (before ++ (unread ++ finish :: beyond)) before.length) reached := by
  fun_induction afterStatement unread generalizing before with
  | case1 => exact absurd rfl hne
  | case2 token rest hsemicolon =>
    have hnext : reached = before.length + 1 := by
      rw [List.length_cons] at hreached
      omega
    rw [hnext]
    refine isLeast_of_isBoundary_next (.behindSemicolon ?_)
    rw [List.cons_append, kindAt?_append_cons, hsemicolon]
  | case3 token _ =>
    have hnext : reached = before.length + 1 := hreached
    rw [hnext]
    refine isLeast_of_isBoundary_next (.atEnd ?_)
    rw [List.cons_append, List.nil_append, kindAt?_append_cons_cons, TokenKind.isEnd_iff.mp hfinish]
  | case4 token next rest hbegins _ =>
    have hnext : reached = before.length + 1 := by
      simp only [List.length_cons] at hreached
      omega
    obtain ⟨word, hword, hkind⟩ := TokenKind.beginsStatement_iff.mp hbegins
    rw [hnext]
    refine isLeast_of_isBoundary_next (.atWord hword ?_)
    rw [List.cons_append, List.cons_append, kindAt?_append_cons_cons, hkind]
  | case5 token next rest hbegins hsemicolon ih =>
    have hnone : ¬ IsBoundary (before ++ (token :: next :: rest ++ finish :: beyond))
        (before.length + 1) :=
      not_isBoundary_next hsemicolon (Bool.eq_false_iff.mpr hbegins)
        (hunread next (List.mem_cons_of_mem _ List.mem_cons_self))
    -- The place behind `token` is where `before ++ [token]` ends.
    have hrest : reached + (afterStatement (next :: rest)).length =
        (before ++ [token]).length + (next :: rest).length := by
      simp only [List.length_append, List.length_cons, List.length_nil] at hreached ⊢
      omega
    have hbehind := ih (List.cons_ne_nil _ _)
      (fun other hmem ↦ hunread other (List.mem_cons_of_mem _ hmem)) hrest
    rw [List.append_assoc, List.length_append] at hbehind
    exact isLeast_of_not_isBoundary_next hnone hbehind

section Synchronize

variable {parser : Parser} {tokens : List Token}

/-- A parser stands at an end of input if and only if it has nothing to read. -/
theorem IsOver.kindAt?_cursor_eq_endOfInput_iff (hover : parser.IsOver tokens) :
    kindAt? (terminated tokens) parser.cursor = some .endOfInput ↔ parser.unread = [] := by
  obtain ⟨before, beyond, hterminated, hlength⟩ := hover.exists_terminated_eq
  rw [hterminated, ← hlength]
  cases hunread : parser.unread with
  | nil =>
    rw [List.nil_append, kindAt?_append_cons, TokenKind.isEnd_iff.mp hover.isEnd_finish]
    exact iff_of_true rfl rfl
  | cons token rest =>
    have hnot := hover.isEnd_of_mem_unread (hunread ▸ List.mem_cons_self)
    rw [List.cons_append, kindAt?_append_cons, Option.some.injEq, ← TokenKind.isEnd_iff, hnot]
    exact iff_of_false Bool.false_ne_true (List.cons_ne_nil _ _)

theorem standingBefore_unread (parser : Parser) :
    parser.standingBefore parser.unread = parser := by
  have hcursor : parser.tokens.length - parser.unread.length = parser.cursor := by
    rw [← parser.cursor_add_length_unread, Nat.add_sub_cancel]
  obtain ⟨tokens, finish, cursor, hle⟩ := parser
  simp only [standingBefore, hcursor]

theorem IsOver.synchronize_eq_self (hover : parser.IsOver tokens)
    (hend : kindAt? (terminated tokens) parser.cursor = some .endOfInput) :
    parser.synchronize = parser := by
  have hunread := hover.kindAt?_cursor_eq_endOfInput_iff.mp hend
  have hafter : afterStatement parser.unread = parser.unread := by
    rw [hunread]
    rfl
  rw [synchronize, hafter, standingBefore_unread]

theorem IsOver.isLeast_synchronize (hover : parser.IsOver tokens)
    (hnot : kindAt? (terminated tokens) parser.cursor ≠ some .endOfInput) :
    IsLeast (boundariesBehind (terminated tokens) parser.cursor) parser.synchronize.cursor := by
  have hunread : parser.unread ≠ [] := mt hover.kindAt?_cursor_eq_endOfInput_iff.mpr hnot
  have hcursor : parser.synchronize.cursor + (afterStatement parser.unread).length =
      parser.cursor + parser.unread.length := parser.cursor_perform .synchronize
  obtain ⟨before, beyond, hterminated, hlength⟩ := hover.exists_terminated_eq
  rw [← hlength] at hcursor ⊢
  rw [hterminated]
  exact isLeast_afterStatement hunread (fun _ ↦ hover.isEnd_of_mem_unread) hover.isEnd_finish
    hcursor

end Synchronize

/-! ### Behind a blamed token -/

/-- The semicolons of a row, from the blamed token on. -/
def semicolonsFrom (row : List Token) (blamed : Nat) : Set Nat :=
  {place | blamed ≤ place ∧ kindAt? row place = some (.symbol .semicolon)}

/-- The tokens that stop a recovery though no semicolon has: the words behind the blamed token that
begin a statement, and the ends of input, the blamed token included. -/
def interruptionsFrom (row : List Token) (blamed : Nat) : Set Nat :=
  {place | (blamed < place ∧ ∃ word ∈ Keyword.statementWords,
      kindAt? row place = some (.keyword word)) ∨
    blamed ≤ place ∧ kindAt? row place = some .endOfInput}

/-- The place is where reading goes on after the blamed token: no semicolon, word or end of input
that a recovery stops at has been skipped, it is just behind the first semicolon if and only if
nothing interrupts the recovery before that, and it is the first interruption if and only if no
semicolon has ended the recovery earlier. -/
structure ResumesAt (row : List Token) (blamed place : Nat) : Prop where
  le_of_semicolon : ∀ semicolon ∈ semicolonsFrom row blamed, place ≤ semicolon + 1
  le_of_interruption : ∀ interruption ∈ interruptionsFrom row blamed, place ≤ interruption
  eq_semicolon_iff : ∀ first, IsLeast (semicolonsFrom row blamed) first →
    (place = first + 1 ↔ ∀ interruption ∈ interruptionsFrom row blamed, first < interruption)
  eq_interruption_iff : ∀ first, IsLeast (interruptionsFrom row blamed) first →
    (place = first ↔ ∀ semicolon ∈ semicolonsFrom row blamed, first ≤ semicolon + 1)

section Resumes

variable {row : List Token} {blamed place : Nat}

theorem resumesAt_of_isLeast
    (hleast : IsLeast (interruptionsFrom row blamed ∪ Nat.succ '' semicolonsFrom row blamed)
      place) : ResumesAt row blamed place := by
  have hsemicolon : ∀ semicolon ∈ semicolonsFrom row blamed, place ≤ semicolon + 1 :=
    fun semicolon hmem ↦ hleast.2 (.inr ⟨semicolon, hmem, rfl⟩)
  have hinterruption : ∀ interruption ∈ interruptionsFrom row blamed, place ≤ interruption :=
    fun interruption hmem ↦ hleast.2 (.inl hmem)
  refine ⟨hsemicolon, hinterruption, fun first hfirst ↦ ⟨?_, fun hbefore ↦ ?_⟩,
    fun first hfirst ↦ ⟨?_, fun hbefore ↦ ?_⟩⟩
  · rintro rfl
    exact hinterruption
  · refine Nat.le_antisymm (hsemicolon first hfirst.1) ?_
    obtain hmem | ⟨semicolon, hmem, rfl⟩ := hleast.1
    · exact hbefore place hmem
    · exact Nat.succ_le_succ (hfirst.2 hmem)
  · rintro rfl
    exact hsemicolon
  · refine Nat.le_antisymm (hinterruption first hfirst.1) ?_
    obtain hmem | ⟨semicolon, hmem, rfl⟩ := hleast.1
    · exact hfirst.2 hmem
    · exact hbefore semicolon hmem

/-- The boundaries behind a token that is no end of input. -/
theorem boundariesBehind_eq (hnot : kindAt? row blamed ≠ some .endOfInput) :
    boundariesBehind row blamed =
      interruptionsFrom row blamed ∪ Nat.succ '' semicolonsFrom row blamed := by
  ext place
  constructor
  · rintro ⟨hlt, hboundary⟩
    cases hboundary with
    | atEnd hkind => exact .inl (.inr ⟨hlt.le, hkind⟩)
    | atWord hword hkind => exact .inl (.inl ⟨hlt, _, hword, hkind⟩)
    | behindSemicolon hkind => exact .inr ⟨_, ⟨Nat.le_of_lt_succ hlt, hkind⟩, rfl⟩
  · rintro ((⟨hlt, word, hword, hkind⟩ | ⟨hle, hkind⟩) | ⟨semicolon, ⟨hle, hkind⟩, rfl⟩)
    · exact ⟨hlt, .atWord hword hkind⟩
    · have hne : blamed ≠ place := by
        rintro rfl
        exact hnot hkind
      exact ⟨Nat.lt_of_le_of_ne hle hne, .atEnd hkind⟩
    · exact ⟨Nat.lt_succ_of_le hle, .behindSemicolon hkind⟩

/-- Nothing comes before an end of input that is blamed. -/
theorem isLeast_of_blamed_end (hend : kindAt? row blamed = some .endOfInput) :
    IsLeast (interruptionsFrom row blamed ∪ Nat.succ '' semicolonsFrom row blamed) blamed := by
  refine ⟨.inl (.inr ⟨Nat.le_refl _, hend⟩), ?_⟩
  rintro place ((⟨hlt, _⟩ | ⟨hle, _⟩) | ⟨semicolon, ⟨hle, _⟩, rfl⟩)
  · exact hlt.le
  · exact hle
  · exact Nat.le_succ_of_le hle

end Resumes

theorem IsOver.resumesAt_synchronize {parser : Parser} {tokens : List Token}
    (hover : parser.IsOver tokens) :
    ResumesAt (terminated tokens) parser.cursor parser.synchronize.cursor := by
  apply resumesAt_of_isLeast
  by_cases hend : kindAt? (terminated tokens) parser.cursor = some .endOfInput
  · rw [hover.synchronize_eq_self hend]
    exact isLeast_of_blamed_end hend
  · rw [← boundariesBehind_eq hend]
    exact hover.isLeast_synchronize hend

/-- A synchronization leaves a parser alone that stands at an end of input, and moves any other to
the next boundary. So behind a parse that fails it goes on just behind the first semicolon, the
blamed token included, unless a word that begins a statement or an end of input comes before it. -/
theorem synchronize_reaches_next_boundary {tokens : List Token} {parser : Parser}
    (hreachable : Reachable tokens parser) :
    let row := terminated tokens
    (kindAt? row parser.cursor = some .endOfInput → parser.synchronize = parser) ∧
      (kindAt? row parser.cursor ≠ some .endOfInput →
        IsLeast (boundariesBehind row parser.cursor) parser.synchronize.cursor) ∧
      ∀ fault failed, parser.parse = (.error fault, failed) →
        (∃ blamed, fault.token? = some blamed ∧ row[failed.cursor]? = some blamed) ∧
          ResumesAt row failed.cursor failed.synchronize.cursor := by
  have hover := hreachable.isOver
  refine ⟨hover.synchronize_eq_self, hover.isLeast_synchronize, fun fault failed hparse ↦ ?_⟩
  obtain rfl : parser.parse.2 = failed := congrArg Prod.snd hparse
  have hfault : parser.parse.1 = .error fault := congrArg Prod.fst hparse
  obtain ⟨blamed, hplace, hblames⟩ := exists_token?_of_parse_eq_error hover hfault
  exact ⟨⟨blamed, hblames, hplace⟩, hreachable.parse.isOver.resumesAt_synchronize⟩

/-- The tokens of `nil + while nil ; print`. -/
def statementsRow : List Token :=
  [⟨.keyword .nilWord, "nil", 1⟩, ⟨.symbol .plus, "+", 1⟩, ⟨.keyword .whileWord, "while", 1⟩,
    ⟨.keyword .nilWord, "nil", 2⟩, ⟨.symbol .semicolon, ";", 2⟩, ⟨.keyword .printWord, "print", 3⟩]

/-- The word that is blamed does not stop the recovery, which goes on behind the semicolon. From
there the next boundary is the end, which it does not leave. -/
theorem synchronize_reaches_next_boundary_statements :
    let failed := (ofTokens statementsRow).parse.2
    let resumed := failed.synchronize
    let ended := resumed.synchronize
    let row := terminated statementsRow
    failed.cursor = 2 ∧
      (ofTokens statementsRow).parse =
        (.error (.expectedExpression ⟨.keyword .whileWord, "while", 1⟩), failed) ∧
      row[2]? = some ⟨.keyword .whileWord, "while", 1⟩ ∧ ResumesAt row 2 5 ∧
      resumed.cursor = 5 ∧ IsLeast (boundariesBehind row 5) 6 ∧
      ended.cursor = 6 ∧ ended.synchronize = ended := by
  intro failed resumed ended row
  have hfailed : Reachable statementsRow failed := .parse .start
  have hparse : (ofTokens statementsRow).parse =
      (.error (.expectedExpression ⟨.keyword .whileWord, "while", 1⟩), failed) := rfl
  obtain ⟨_, _, hfault⟩ := synchronize_reaches_next_boundary (@Reachable.start statementsRow)
  obtain ⟨_, hnext, _⟩ := synchronize_reaches_next_boundary hfailed.synchronize
  obtain ⟨hstays, _⟩ := synchronize_reaches_next_boundary hfailed.synchronize.synchronize
  exact ⟨rfl, hparse, rfl, (hfault _ _ hparse).2, rfl, hnext nofun, rfl, hstays rfl⟩

end Parser

end Lox
