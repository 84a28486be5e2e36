import Lox.Proofs.Reading.Completeness

/-!
# What has been read is spelled

`Reading.ReadFrom` is what a reading and the tokens behind it have in common: every open
parenthesis, every waiting operator with its left operand and the operand at hand stand for a
stretch of the tokens, in this order, and the operands bind as tightly as their operators ask. Each
step keeps it (`readFrom_step`). So an outcome is a stratified tree that the tokens spell
(`outcome_readFrom`), and whatever was taken in begins an expression
(`beginsExpression_of_after?`). Which tokens leave an operand at hand, and how many parentheses
they leave open, is read off the steps likewise.
-/

set_option autoImplicit false
set_option relaxedAutoImplicit false

namespace Lox

namespace Pending

/-! ### Waiting operators -/

/-- Waiting operators, from the latest, and the tokens that they and their left operands were read
from. No operator would have let an earlier one wait if that one could have been completed. -/
inductive ReadFrom : List Pending → List Token → Prop
  | nil : ReadFrom [] []
  | unary {earlier : List Pending} {tokens : List Token} {token : Token}
      (hunary : token.kind.IsUnary) (hearlier : ReadFrom earlier tokens) :
      ReadFrom (.unary token :: earlier) (tokens ++ [token])
  | binary {earlier : List Pending} {tokens leftTokens : List Token} {token : Token}
      {operator : BinaryOperator} {left : Expr}
      (hoperator : token.kind.binaryOperator? = some operator)
      (hleft : left.Spells leftTokens) (hstratified : left.Stratified)
      (hlevel : operator.precedence ≤ left.level)
      (hfloor : floor earlier ≤ operator.precedence) (hearlier : ReadFrom earlier tokens) :
      ReadFrom (.binary left token operator :: earlier) (tokens ++ (leftTokens ++ [token]))

theorem floor_le_five (pending : List Pending) : floor pending ≤ 5 := by
  cases pending with
  | nil => exact Nat.zero_le 5
  | cons latest earlier =>
    cases latest with
    | unary token => exact Nat.le_refl 5
    | binary left token operator => exact Nat.succ_le_succ operator.precedence_le_four

/-- An operator that waits in spite of a looser one behind its right operand leaves room for it. -/
theorem floor_le_of_loose {precedence : Nat} {latest : Pending}
    (hloose : ¬ precedence ≤ latest.precedence) (earlier : List Pending) :
    floor (latest :: earlier) ≤ precedence := by
  cases latest with
  | unary token => exact Nat.le_of_not_le hloose
  | binary left token operator => exact Nat.lt_of_not_le hloose

/-- Settling takes tokens from the waiting operators to the operand and loses none. -/
theorem readFrom_settle {pending : List Pending} {tokens : List Token}
    (hpending : ReadFrom pending tokens) {precedence : Nat} {operand : Expr}
    {operandTokens : List Token} (hspells : operand.Spells operandTokens)
    (hstratified : operand.Stratified) (hfloor : floor pending ≤ operand.level)
    (hle : precedence ≤ operand.level) :
    ∃ before taken, tokens ++ operandTokens = before ++ taken ∧
      ReadFrom (settle precedence operand pending).2 before ∧
      (settle precedence operand pending).1.Spells taken ∧
      (settle precedence operand pending).1.Stratified ∧
      precedence ≤ (settle precedence operand pending).1.level ∧
      floor (settle precedence operand pending).2 ≤ precedence := by
  induction hpending generalizing operand operandTokens with
  | nil => exact ⟨[], operandTokens, rfl, .nil, hspells, hstratified, hle, Nat.zero_le _⟩
  | @unary earlier tokens token hunary hearlier ih =>
    by_cases hcomplete : precedence ≤ 5
    · rw [settle_unary hcomplete, List.append_assoc]
      exact ih (.unary hspells) (.unary hunary hfloor hstratified) (floor_le_five earlier)
        hcomplete
    · have hloose : ¬ precedence ≤ (Pending.unary token).precedence := hcomplete
      rw [settle_of_loose hloose]
      exact ⟨_, _, rfl, .unary hunary hearlier, hspells, hstratified, hle,
        floor_le_of_loose hloose earlier⟩
  | @binary earlier tokens leftTokens token operator left hoperator hleft hleftStratified
      hleftLevel hwaiting hearlier ih =>
    by_cases hcomplete : precedence ≤ operator.precedence
    · have hlevel := TokenKind.binaryLevel?_of_binaryOperator? hoperator
      have hbinary := Expr.level_binary hlevel left operand
      rw [settle_binary hcomplete, List.append_assoc, List.append_assoc]
      exact ih (.binary hleft hspells)
        (.binary hlevel hleftLevel hfloor hleftStratified hstratified)
        (hbinary ▸ hwaiting) (hbinary ▸ hcomplete)
    · have hloose : ¬ precedence ≤ (Pending.binary left token operator).precedence := hcomplete
      rw [settle_of_loose hloose]
      exact ⟨_, _, rfl, .binary hoperator hleft hleftStratified hleftLevel hwaiting hearlier,
        hspells, hstratified, hle, floor_le_of_loose hloose earlier⟩

theorem spells_settleAll {pending : List Pending} {tokens : List Token}
    (hpending : ReadFrom pending tokens) {operand : Expr} {operandTokens : List Token}
    (hspells : operand.Spells operandTokens) (hstratified : operand.Stratified)
    (hfloor : floor pending ≤ operand.level) :
    (settleAll operand pending).Stratified ∧
      (settleAll operand pending).Spells (tokens ++ operandTokens) := by
  obtain ⟨before, taken, happend, hbefore, htaken, hsettled, _, _⟩ :=
    readFrom_settle hpending hspells hstratified hfloor (Nat.zero_le _)
  rw [settle_zero] at hbefore htaken hsettled
  cases hbefore
  exact ⟨hsettled, happend ▸ htaken⟩

/-- What waits outside of the open parentheses, from the latest, and the tokens up to the latest
open parenthesis. -/
inductive EnclosingReadFrom : List (List Pending) → List Token → Prop
  | nil : EnclosingReadFrom [] []
  | cons {outer : List Pending} {enclosing : List (List Pending)}
      {tokens outerTokens : List Token} {opening : Token}
      (henclosing : EnclosingReadFrom enclosing tokens) (houter : ReadFrom outer outerTokens)
      (hkind : opening.kind = .symbol .leftParen) :
      EnclosingReadFrom (outer :: enclosing) (tokens ++ (outerTokens ++ [opening]))

end Pending

namespace Reading

open Pending

/-! ### Readings -/

/-- A reading and the tokens behind it. An operand at hand is a literal or a group as long as
nothing follows it. -/
inductive ReadFrom : Reading → List Token → Prop
  | wanted {pending : List Pending} {enclosing : List (List Pending)}
      {outside inside : List Token} (henclosing : EnclosingReadFrom enclosing outside)
      (hpending : Pending.ReadFrom pending inside) :
      ReadFrom ⟨none, pending, enclosing⟩ (outside ++ inside)
  | atHand {operand : Expr} {pending : List Pending} {enclosing : List (List Pending)}
      {outside inside tokens : List Token} (henclosing : EnclosingReadFrom enclosing outside)
      (hpending : Pending.ReadFrom pending inside) (hspells : operand.Spells tokens)
      (hstratified : operand.Stratified) (hlevel : operand.level = 6) :
      ReadFrom ⟨some operand, pending, enclosing⟩ (outside ++ (inside ++ tokens))

theorem readFrom_start : start.ReadFrom [] :=
  .wanted .nil .nil

theorem readFrom_step {reading next : Reading} {token : Token} {read : List Token}
    (hread : reading.ReadFrom read) (hstep : Step reading token next) :
    next.ReadFrom (read ++ [token]) := by
  cases hread with
  | wanted henclosing hpending =>
    rw [List.append_assoc]
    cases hstep with
    | opening hkind =>
      have hnext := ReadFrom.wanted (henclosing.cons hpending hkind) .nil
      rwa [List.append_nil] at hnext
    | literal hliteral =>
      rw [TokenKind.literal?_eq_some_iff] at hliteral
      exact .atHand henclosing hpending (.literal hliteral) (.literal _) rfl
    | unary hoperator =>
      exact .wanted henclosing (.unary (TokenKind.isUnary_iff.mpr ⟨_, hoperator⟩) hpending)
  | @atHand operand pending _ _ _ _ henclosing hpending hspells hstratified hlevel =>
    have hfloor : floor pending ≤ operand.level :=
      hlevel ▸ Nat.le_succ_of_le (floor_le_five pending)
    cases hstep with
    | @binary _ operator _ _ _ _ _ hoperator hsettle =>
      have hle : operator.precedence ≤ operand.level := by
        have hfour := operator.precedence_le_four
        omega
      obtain ⟨before, taken, happend, hbefore, htaken, hsettled, hleft, hearlier⟩ :=
        readFrom_settle hpending hspells hstratified hfloor hle
      rw [hsettle] at hbefore htaken hsettled hleft hearlier
      rw [happend, List.append_assoc, List.append_assoc]
      exact .wanted henclosing (.binary hoperator htaken hsettled hleft hearlier hbefore)
    | closing hkind =>
      cases henclosing with
      | cons henclosing houter hopening =>
        obtain ⟨hinner, hinnerSpells⟩ :=
          spells_settleAll hpending hspells hstratified hfloor
        have hgroup := ReadFrom.atHand henclosing houter
          (.group hopening hkind hinnerSpells) (.group hinner) rfl
        simpa only [List.append_assoc, List.cons_append, List.nil_append] using hgroup

theorem readFrom_after? {reading : Reading} {taken : List Token}
    (hafter : start.after? taken = some reading) : reading.ReadFrom taken :=
  after?_preserves ReadFrom readFrom_step readFrom_start hafter

theorem spells_settleAll_of_readFrom {operand : Expr} {pending : List Pending}
    {read : List Token} (hread : ReadFrom ⟨some operand, pending, []⟩ read) :
    (settleAll operand pending).Stratified ∧ (settleAll operand pending).Spells read := by
  cases hread with
  | atHand henclosing hpending hspells hstratified hlevel =>
    cases henclosing
    exact spells_settleAll hpending hspells hstratified
      (hlevel ▸ Nat.le_succ_of_le (floor_le_five _))

theorem outcome_readFrom {reading : Reading} {read : List Token} {expression : Expr}
    (hread : reading.ReadFrom read) (houtcome : reading.outcome = .ok expression) :
    expression.Stratified ∧ expression.Spells read := by
  obtain ⟨_ | operand, pending, _ | ⟨outer, enclosing⟩⟩ := reading <;> cases houtcome
  exact spells_settleAll_of_readFrom hread

/-! ### Whatever was read begins an expression -/

private theorem beginsExpression_of_readFrom_operand {operand : Expr} {pending : List Pending}
    {enclosing : List (List Pending)} {read : List Token}
    (hread : ReadFrom ⟨some operand, pending, enclosing⟩ read) : BeginsExpression read := by
  -- A closing parenthesis leaves one less open and an operand at hand.
  induction enclosing generalizing operand pending read with
  | nil =>
    obtain ⟨hstratified, hspells⟩ := spells_settleAll_of_readFrom hread
    exact SpellsExpression.beginsExpression ⟨_, hstratified, hspells⟩
  | cons outer enclosing ih =>
    have hclosed := @readFrom_step _ _ ⟨.symbol .rightParen, ")", 1⟩ _ hread (.closing rfl)
    exact (ih hclosed).of_append

/-- An operand and the parentheses that are missing complete every reading. -/
theorem beginsExpression_of_readFrom {reading : Reading} {read : List Token}
    (hread : reading.ReadFrom read) : BeginsExpression read := by
  obtain ⟨_ | operand, pending, enclosing⟩ := reading
  · have hoperand := @readFrom_step _ _ ⟨.keyword .nilWord, "nil", 1⟩ _ hread (.literal rfl)
    exact (beginsExpression_of_readFrom_operand hoperand).of_append
  · exact beginsExpression_of_readFrom_operand hread

theorem beginsExpression_of_after? {reading : Reading} {taken : List Token}
    (hafter : start.after? taken = some reading) : BeginsExpression taken :=
  beginsExpression_of_readFrom (readFrom_after? hafter)

/-! ### What the tokens tell of a reading -/

theorem isSome_operand?_of_step {reading next : Reading} {token : Token}
    (hstep : Step reading token next) : next.operand?.isSome = token.kind.endsOperand := by
  cases hstep with
  | opening hkind => rw [hkind]; rfl
  | literal hliteral => rw [(TokenKind.literal?_eq_some_iff.mp hliteral).endsOperand]; rfl
  | unary hoperator => rw [(TokenKind.isUnary_iff.mpr ⟨_, hoperator⟩).endsOperand]; rfl
  | binary hoperator _ =>
    rw [TokenKind.endsOperand_of_binaryLevel? (TokenKind.binaryLevel?_of_binaryOperator? hoperator)]
    rfl
  | closing hkind => rw [hkind]; rfl

/-- The last token decides whether an operand is at hand. -/
theorem isSome_operand?_iff {reading : Reading} {taken : List Token}
    (hafter : start.after? taken = some reading) :
    reading.operand?.isSome ↔ EndsWithOperand taken := by
  have hstart : start.operand?.isSome ↔ EndsWithOperand [] := by simp [start, EndsWithOperand]
  refine after?_preserves (fun reading read ↦ reading.operand?.isSome ↔ EndsWithOperand read)
    (fun {reading next token read} _ hstep ↦ ?_) hstart hafter
  rw [isSome_operand?_of_step hstep]
  simp [EndsWithOperand]

/-- Only parentheses open and close. -/
theorem length_enclosing_of_step {reading next : Reading} {token : Token}
    (hstep : Step reading token next) :
    next.enclosing.length + symbolCount .rightParen [token] =
      reading.enclosing.length + symbolCount .leftParen [token] := by
  cases hstep with
  | opening hkind => simp [symbolCount, hkind, TokenKind.isSymbol]
  | literal hliteral =>
    rw [symbolCount_singleton_of_some hliteral rfl, symbolCount_singleton_of_some hliteral rfl]
  | unary hoperator =>
    rw [symbolCount_singleton_of_some hoperator rfl, symbolCount_singleton_of_some hoperator rfl]
  | binary hoperator _ =>
    rw [symbolCount_singleton_of_some hoperator rfl, symbolCount_singleton_of_some hoperator rfl]
  | closing hkind => simp [symbolCount, hkind, TokenKind.isSymbol]

/-- The open parentheses are those that the tokens have opened and not closed. -/
theorem length_enclosing_add {reading : Reading} {taken : List Token}
    (hafter : start.after? taken = some reading) :
    reading.enclosing.length + symbolCount .rightParen taken = symbolCount .leftParen taken := by
  have hstart : start.enclosing.length + symbolCount .rightParen [] = symbolCount .leftParen [] :=
    rfl
  refine after?_preserves
    (fun reading read ↦
      reading.enclosing.length + symbolCount .rightParen read = symbolCount .leftParen read)
    (fun {reading next token read} hread hstep ↦ ?_) hstart hafter
  have hcount := length_enclosing_of_step hstep
  rw [symbolCount_append, symbolCount_append]
  omega

end Reading

end Lox
