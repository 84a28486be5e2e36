import Lox.Proofs.Reading.Steps

/-!
# Spellings are read

Whoever reads the tokens of a stratified tree takes all of them in. What is known then need not be
the tree itself, since an operator waits until one that binds no tighter follows, but it settles to
the tree for every such operator (`after?_spelling`). So the first token of a rest that is no binary
operator ends the reading with the tree (`run_spelling`), and a row of tokens that cannot be taken
in begins no expression (`not_beginsExpression_of_refused`).
-/

set_option autoImplicit false
set_option relaxedAutoImplicit false

namespace Lox

theorem BinaryOperator.precedence_le_four (operator : BinaryOperator) :
    operator.precedence ≤ 4 := by
  cases operator <;> decide

namespace Pending

/-! ### Settling -/

/-- How tightly the right operand of a waiting operator binds at least. -/
def rightPrecedence : Pending → Nat
  | unary _ => 5
  | binary _ _ operator => operator.precedence + 1

/-- How tightly an operand binds at least that follows some waiting operators. -/
def floor : List Pending → Nat
  | [] => 0
  | latest :: _ => latest.rightPrecedence

theorem settle_of_loose {precedence : Nat} {latest : Pending}
    (hloose : ¬ precedence ≤ latest.precedence) (operand : Expr) (earlier : List Pending) :
    settle precedence operand (latest :: earlier) = (operand, latest :: earlier) :=
  if_neg hloose

/-- A binary operator that has its left operand already leaves the waiting operators alone. -/
theorem settle_of_floor_le {operator : BinaryOperator} {pending : List Pending}
    (hfloor : floor pending ≤ operator.precedence) (operand : Expr) :
    settle operator.precedence operand pending = (operand, pending) := by
  have hle := operator.precedence_le_four
  cases pending with
  | nil => rfl
  | cons latest earlier =>
    have hloose : ¬ operator.precedence ≤ latest.precedence := by
      cases latest with
      | unary token =>
        simp only [floor, rightPrecedence] at hfloor
        omega
      | binary left token waiting =>
        simp only [floor, rightPrecedence] at hfloor
        simp only [precedence]
        omega
    exact settle_of_loose hloose operand earlier

theorem settle_unary {precedence : Nat} (hle : precedence ≤ 5) (token : Token) (operand : Expr)
    (earlier : List Pending) :
    settle precedence operand (.unary token :: earlier) =
      settle precedence (.unary token operand) earlier :=
  if_pos hle

theorem settle_binary {precedence : Nat} {operator : BinaryOperator}
    (hle : precedence ≤ operator.precedence) (left : Expr) (token : Token) (operand : Expr)
    (earlier : List Pending) :
    settle precedence operand (.binary left token operator :: earlier) =
      settle precedence (.binary token left operand) earlier :=
  if_pos hle

/-- What binds loosest completes all operators. -/
theorem settle_zero (operand : Expr) (pending : List Pending) :
    settle 0 operand pending = (settleAll operand pending, []) := by
  induction pending generalizing operand with
  | nil => rfl
  | cons latest earlier ih => exact ih (latest.complete operand)

end Pending

namespace Reading

open Pending

/-! ### The tokens of a tree -/

/-- The tokens of a tree are taken in where the waiting operators leave room for it. What is known
afterwards settles as if the tree had been read as one operand. -/
theorem after?_spelling {expression : Expr} {tokens : List Token}
    (hspells : expression.Spells tokens) (hstratified : expression.Stratified)
    (pending : List Pending) (hfloor : floor pending ≤ expression.level)
    (enclosing : List (List Pending)) :
    ∃ operand waiting,
      after? ⟨none, pending, enclosing⟩ tokens = some ⟨some operand, waiting, enclosing⟩ ∧
        ∀ precedence ≤ expression.level,
          settle precedence operand waiting = settle precedence expression pending := by
  induction hspells generalizing pending enclosing with
  | @literal value token hliteral =>
    rw [← TokenKind.literal?_eq_some_iff] at hliteral
    exact ⟨.literal value, pending, after?_of_step (.literal hliteral) [], fun _ _ ↦ rfl⟩
  | @group inner opening closing tokens hopening hclosing _ ih =>
    cases hstratified with
    | group hinner =>
      obtain ⟨operand, waiting, hafter, hsettle⟩ :=
        ih hinner [] (Nat.zero_le _) (pending :: enclosing)
      -- Inside the parentheses nothing waited before, so all that waits belongs to the group.
      have hall : settleAll operand waiting = inner := by
        have hzero := hsettle 0 (Nat.zero_le _)
        rw [settle_zero, settle_zero] at hzero
        exact congrArg Prod.fst hzero
      refine ⟨.group inner, pending, ?_, fun _ _ ↦ rfl⟩
      rw [List.cons_append, after?_of_step (.opening hopening), after?_of_after? hafter,
        after?_of_step (.closing hclosing), after?_nil, hall]
  | @unary token operand tokens _ ih =>
    cases hstratified with
    | unary hunary hlevel hoperand =>
      obtain ⟨operator, hoperator⟩ := TokenKind.isUnary_iff.mp hunary
      obtain ⟨latest, waiting, hafter, hsettle⟩ :=
        ih hoperand (.unary token :: pending) hlevel enclosing
      refine ⟨latest, waiting, ?_, fun precedence hle ↦ ?_⟩
      · rw [after?_of_step (.unary hoperator), hafter]
      · rw [hsettle precedence (Nat.le_trans hle hlevel), settle_unary hle]
  | @binary token left right leftTokens rightTokens _ _ ihleft ihright =>
    cases hstratified with
    | binary hlevel hleftLevel hrightLevel hleft hright =>
      rw [Expr.level_binary hlevel] at hfloor ⊢
      obtain ⟨operator, hoperator, rfl⟩ := TokenKind.exists_binaryOperator? hlevel
      obtain ⟨leftOperand, leftWaiting, hleftAfter, hleftSettle⟩ :=
        ihleft hleft pending (Nat.le_trans hfloor hleftLevel) enclosing
      have hstep : settle operator.precedence leftOperand leftWaiting = (left, pending) := by
        rw [hleftSettle _ hleftLevel, settle_of_floor_le hfloor]
      obtain ⟨operand, waiting, hafter, hsettle⟩ :=
        ihright hright (.binary left token operator :: pending) hrightLevel enclosing
      refine ⟨operand, waiting, ?_, fun precedence hle ↦ ?_⟩
      · rw [after?_of_after? hleftAfter, after?_of_step (.binary hoperator hstep), hafter]
      · rw [hsettle precedence (Nat.le_trans hle (Nat.le_of_lt hrightLevel)),
          settle_binary hle]

/-- The tokens of a tree, read from the start, leave the tree as the outcome. -/
theorem after?_start_spelling {expression : Expr} {tokens : List Token}
    (hspells : expression.Spells tokens) (hstratified : expression.Stratified) :
    ∃ operand waiting, start.after? tokens = some ⟨some operand, waiting, []⟩ ∧
      settleAll operand waiting = expression := by
  obtain ⟨operand, waiting, hafter, hsettle⟩ :=
    after?_spelling hspells hstratified [] (Nat.zero_le _) []
  have hzero := hsettle 0 (Nat.zero_le _)
  rw [settle_zero, settle_zero] at hzero
  exact ⟨operand, waiting, hafter, congrArg Prod.fst hzero⟩

/-- Behind an operand and outside of parentheses only a binary operator is taken in. -/
theorem step?_of_binaryLevel?_eq_none {token : Token}
    (hnone : token.kind.binaryLevel? = none) (operand : Expr) (pending : List Pending) :
    step? ⟨some operand, pending, []⟩ token = none := by
  rw [TokenKind.binaryLevel?_eq_none_iff] at hnone
  rw [Option.eq_none_iff_forall_ne_some]
  intro next hsome
  cases step?_eq_some_iff.mp hsome with
  | binary hoperator _ => simp [hnone] at hoperator

/-- A reading ends with a tree behind its tokens if no binary operator follows them. -/
theorem run_spelling {expression : Expr} {tokens rest : List Token}
    (hspells : expression.Spells tokens) (hstratified : expression.Stratified)
    (hrest : ∀ token ∈ rest.head?, token.kind.binaryLevel? = none) :
    ∃ reading, start.run (tokens ++ rest) = (reading, rest) ∧
      reading.outcome = .ok expression := by
  obtain ⟨operand, waiting, hafter, hall⟩ := after?_start_spelling hspells hstratified
  refine ⟨⟨some operand, waiting, []⟩, ?_, congrArg Except.ok hall⟩
  rw [run_of_after? hafter, run_of_head?_refused]
  intro token hmem
  exact step?_of_binaryLevel?_eq_none (hrest token hmem) operand waiting

/-- No row of tokens begins with two expressions that end where no binary operator follows, and none
spells two trees. -/
theorem eq_of_spells_append {first second : Expr} {firstTokens secondTokens : List Token}
    {firstRest secondRest : List Token} (hfirst : first.Spells firstTokens)
    (hsecond : second.Spells secondTokens) (hfirstStratified : first.Stratified)
    (hsecondStratified : second.Stratified)
    (hfirstRest : ∀ token ∈ firstRest.head?, token.kind.binaryLevel? = none)
    (hsecondRest : ∀ token ∈ secondRest.head?, token.kind.binaryLevel? = none)
    (happend : firstTokens ++ firstRest = secondTokens ++ secondRest) :
    first = second ∧ firstTokens = secondTokens := by
  obtain ⟨reading, hrun, houtcome⟩ := run_spelling hfirst hfirstStratified hfirstRest
  obtain ⟨other, hother, hotherOutcome⟩ := run_spelling hsecond hsecondStratified hsecondRest
  rw [happend, hother, Prod.mk.injEq] at hrun
  obtain ⟨rfl, rfl⟩ := hrun
  constructor
  · rw [houtcome] at hotherOutcome
    exact Except.ok.inj hotherOutcome
  · exact List.append_cancel_right happend

/-! ### Refused tokens -/

/-- Every beginning of an expression is taken in. -/
theorem isSome_after?_of_beginsExpression {tokens : List Token}
    (hbegins : BeginsExpression tokens) : (start.after? tokens).isSome := by
  obtain ⟨later, expression, hstratified, hspells⟩ := hbegins
  obtain ⟨operand, waiting, hafter, _⟩ := after?_start_spelling hspells hstratified
  rw [after?_append] at hafter
  obtain ⟨next, hnext, _⟩ := Option.bind_eq_some_iff.mp hafter
  exact Option.isSome_of_eq_some hnext

theorem not_beginsExpression_of_refused {reading : Reading} {taken : List Token} {found : Token}
    (hafter : start.after? taken = some reading) (hrefused : reading.step? found = none) :
    ¬ BeginsExpression (taken ++ [found]) := by
  intro hbegins
  have hsome := isSome_after?_of_beginsExpression hbegins
  rw [after?_of_after? hafter, after?_cons, hrefused] at hsome
  cases hsome

end Reading

end Lox
