import Lox.Expr.Reading
import Lox.Proofs.Grammar

/-!
# What a reading can do with a token

`Step` lists the five ways in which a token is taken in, and `step?_eq_some_iff` says that these
are all. `after?` takes in a whole row of tokens or refuses it; `exists_after?_run` splits what a
run is given into a row that is taken in and a rest whose first token is refused.
-/

set_option autoImplicit false
set_option relaxedAutoImplicit false

namespace Lox.Reading

/-! ### One token -/

/-- One token taken in. -/
inductive Step : Reading → Token → Reading → Prop
  | opening {token : Token} {pending : List Pending} {enclosing : List (List Pending)}
      (hkind : token.kind = .symbol .leftParen) :
      Step ⟨none, pending, enclosing⟩ token ⟨none, [], pending :: enclosing⟩
  | literal {token : Token} {value : Value} {pending : List Pending}
      {enclosing : List (List Pending)} (hliteral : token.kind.literal? = some value) :
      Step ⟨none, pending, enclosing⟩ token ⟨some (.literal value), pending, enclosing⟩
  | unary {token : Token} {operator : UnaryOperator} {pending : List Pending}
      {enclosing : List (List Pending)} (hoperator : token.kind.unaryOperator? = some operator) :
      Step ⟨none, pending, enclosing⟩ token ⟨none, .unary token :: pending, enclosing⟩
  | binary {token : Token} {operator : BinaryOperator} {operand left : Expr}
      {pending earlier : List Pending} {enclosing : List (List Pending)}
      (hoperator : token.kind.binaryOperator? = some operator)
      (hsettle : Pending.settle operator.precedence operand pending = (left, earlier)) :
      Step ⟨some operand, pending, enclosing⟩ token
        ⟨none, .binary left token operator :: earlier, enclosing⟩
  | closing {token : Token} {operand : Expr} {pending outer : List Pending}
      {enclosing : List (List Pending)} (hkind : token.kind = .symbol .rightParen) :
      Step ⟨some operand, pending, outer :: enclosing⟩ token
        ⟨some (.group (Pending.settleAll operand pending)), outer, enclosing⟩

theorem step_of_beginOperand? {pending : List Pending} {enclosing : List (List Pending)}
    {token : Token} {next : Reading} (hsome : beginOperand? pending enclosing token = some next) :
    Step ⟨none, pending, enclosing⟩ token next := by
  unfold beginOperand? at hsome
  split at hsome
  case h_1 hkind =>
    cases hsome
    exact .opening hkind
  case h_2 =>
    split at hsome
    case h_1 value _ hliteral =>
      cases hsome
      exact .literal hliteral
    case h_2 operator _ hoperator =>
      cases hsome
      exact .unary hoperator
    case h_3 => cases hsome

theorem step_of_extendOperand? {operand : Expr} {pending : List Pending}
    {enclosing : List (List Pending)} {token : Token} {next : Reading}
    (hsome : extendOperand? operand pending enclosing token = some next) :
    Step ⟨some operand, pending, enclosing⟩ token next := by
  unfold extendOperand? at hsome
  split at hsome
  case h_1 operator hoperator =>
    cases hsome
    exact .binary hoperator rfl
  case h_2 =>
    split at hsome
    case h_1 hkind =>
      cases hsome
      exact .closing hkind
    case h_2 => cases hsome

theorem beginOperand?_of_literal? {token : Token} {value : Value} (pending : List Pending)
    (enclosing : List (List Pending)) (hliteral : token.kind.literal? = some value) :
    beginOperand? pending enclosing token = some ⟨some (.literal value), pending, enclosing⟩ := by
  unfold beginOperand?
  split
  case h_1 hkind =>
    rw [hkind] at hliteral
    cases hliteral
  case h_2 => simp [hliteral]

theorem beginOperand?_of_unaryOperator? {token : Token} {operator : UnaryOperator}
    (pending : List Pending) (enclosing : List (List Pending))
    (hoperator : token.kind.unaryOperator? = some operator) :
    beginOperand? pending enclosing token = some ⟨none, .unary token :: pending, enclosing⟩ := by
  unfold beginOperand?
  split
  case h_1 hkind =>
    rw [hkind] at hoperator
    cases hoperator
  case h_2 => simp [hoperator, TokenKind.literal?_of_unaryOperator? hoperator]

theorem step?_eq_some_iff {reading next : Reading} {token : Token} :
    reading.step? token = some next ↔ Step reading token next := by
  constructor
  · intro hsome
    obtain ⟨_ | operand, pending, enclosing⟩ := reading
    · exact step_of_beginOperand? hsome
    · exact step_of_extendOperand? hsome
  · intro hstep
    cases hstep with
    | opening hkind => simp [step?, beginOperand?, hkind]
    | literal hliteral => exact beginOperand?_of_literal? _ _ hliteral
    | unary hoperator => exact beginOperand?_of_unaryOperator? _ _ hoperator
    | binary hoperator hsettle => simp [step?, extendOperand?, hoperator, hsettle]
    | closing hkind =>
      have hnone : (TokenKind.symbol .rightParen).binaryOperator? = none := rfl
      simp [step?, extendOperand?, hkind, hnone]

/-- Nothing is taken in at the end of the input. -/
theorem step?_of_isEnd {token : Token} (hend : token.kind.isEnd = true) (reading : Reading) :
    reading.step? token = none := by
  rw [Option.eq_none_iff_forall_ne_some]
  intro next hsome
  cases step?_eq_some_iff.mp hsome with
  | opening hkind => rw [hkind] at hend; cases hend
  | literal hliteral => simp [TokenKind.isEnd_of_some hliteral rfl] at hend
  | unary hoperator => simp [TokenKind.isEnd_of_some hoperator rfl] at hend
  | binary hoperator _ => simp [TokenKind.isEnd_of_some hoperator rfl] at hend
  | closing hkind => rw [hkind] at hend; cases hend

/-- Behind an operand every binary operator is taken in. -/
theorem binaryLevel?_of_refused {operand : Expr} {pending : List Pending}
    {enclosing : List (List Pending)} {found : Token}
    (hrefused : step? ⟨some operand, pending, enclosing⟩ found = none) :
    found.kind.binaryLevel? = none := by
  rw [TokenKind.binaryLevel?_eq_none_iff, Option.eq_none_iff_forall_ne_some]
  intro operator hoperator
  have hstep : Step ⟨some operand, pending, enclosing⟩ found _ := .binary hoperator rfl
  rw [step?_eq_some_iff.mpr hstep] at hrefused
  cases hrefused

/-- Where an operand is wanted every literal is taken in. -/
theorem literal?_of_refused {pending : List Pending} {enclosing : List (List Pending)}
    {found : Token} (hrefused : step? ⟨none, pending, enclosing⟩ found = none) :
    found.kind.literal? = none := by
  rw [Option.eq_none_iff_forall_ne_some]
  intro value hliteral
  have hstep : Step ⟨none, pending, enclosing⟩ found _ := .literal hliteral
  rw [step?_eq_some_iff.mpr hstep] at hrefused
  cases hrefused

/-! ### Rows of tokens -/

/-- Takes in all of the tokens, unless one of them is refused. -/
def after? (reading : Reading) (tokens : List Token) : Option Reading :=
  tokens.foldlM step? reading

@[simp] theorem after?_nil (reading : Reading) : reading.after? [] = some reading :=
  rfl

theorem after?_cons (reading : Reading) (token : Token) (rest : List Token) :
    reading.after? (token :: rest) = (reading.step? token).bind fun next ↦ next.after? rest :=
  List.foldlM_cons

theorem after?_append (reading : Reading) (first second : List Token) :
    reading.after? (first ++ second) = (reading.after? first).bind fun next ↦ next.after? second :=
  List.foldlM_append

theorem after?_of_step {reading next : Reading} {token : Token} (hstep : Step reading token next)
    (rest : List Token) : reading.after? (token :: rest) = next.after? rest := by
  rw [after?_cons, step?_eq_some_iff.mpr hstep, Option.bind_some]

theorem after?_of_after? {reading next : Reading} {first : List Token}
    (hfirst : reading.after? first = some next) (second : List Token) :
    reading.after? (first ++ second) = next.after? second := by
  rw [after?_append, hfirst, Option.bind_some]

/-- What each step keeps of a reading and the tokens read so far holds after a row of tokens. -/
theorem after?_preserves (Keeps : Reading → List Token → Prop)
    (hkeeps : ∀ {reading next : Reading} {token : Token} {read : List Token},
      Keeps reading read → Step reading token next → Keeps next (read ++ [token]))
    {reading last : Reading} {read tokens : List Token} (hreading : Keeps reading read)
    (hafter : reading.after? tokens = some last) : Keeps last (read ++ tokens) := by
  induction tokens generalizing reading read with
  | nil =>
    cases hafter
    rwa [List.append_nil]
  | cons token rest ih =>
    rw [after?_cons] at hafter
    obtain ⟨next, hsome, hrest⟩ := Option.bind_eq_some_iff.mp hafter
    have hnext := ih (hkeeps hreading (step?_eq_some_iff.mp hsome)) hrest
    rwa [List.append_assoc] at hnext

/-! ### Runs -/

theorem run_of_after? {reading next : Reading} {taken : List Token}
    (hafter : reading.after? taken = some next) (later : List Token) :
    reading.run (taken ++ later) = next.run later := by
  induction taken generalizing reading with
  | nil =>
    cases hafter
    rfl
  | cons token rest ih =>
    rw [after?_cons] at hafter
    obtain ⟨middle, hsome, hrest⟩ := Option.bind_eq_some_iff.mp hafter
    rw [List.cons_append, run_cons_of_some hsome, ih hrest]

/-- A run stops where nothing can be taken in. -/
theorem run_of_head?_refused {reading : Reading} {tokens : List Token}
    (hrefused : ∀ token ∈ tokens.head?, reading.step? token = none) :
    reading.run tokens = (reading, tokens) := by
  cases tokens with
  | nil => rfl
  | cons token rest => exact run_cons_of_none (hrefused token rfl)

/-- A run takes in as many tokens as it can. -/
theorem exists_after?_run (reading : Reading) (tokens : List Token) :
    ∃ taken, tokens = taken ++ (reading.run tokens).2 ∧
      reading.after? taken = some (reading.run tokens).1 ∧
        ∀ token ∈ (reading.run tokens).2.head?, (reading.run tokens).1.step? token = none := by
  induction tokens generalizing reading with
  | nil => exact ⟨[], rfl, rfl, by simp⟩
  | cons token rest ih =>
    cases hstep : reading.step? token with
    | none =>
      rw [run_cons_of_none hstep]
      exact ⟨[], rfl, rfl, by simpa using hstep⟩
    | some next =>
      rw [run_cons_of_some hstep]
      obtain ⟨taken, happend, hafter, hrefused⟩ := ih next
      refine ⟨token :: taken, congrArg (token :: ·) happend, ?_, hrefused⟩
      rw [after?_cons, hstep, Option.bind_some, hafter]

end Lox.Reading
