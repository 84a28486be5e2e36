import Lox.Proofs.Analysis
import Lox.Proofs.Grammar

/-!
# Nodes and their places

A node of a tree is spelled by a stretch of the tokens that spell the tree. `Expr.StandsIn` says by
which, and no operand ends just before it (`StandsIn.not_endsWithOperand`). If a stratified tree
cannot be evaluated, the operands of one of its nodes have values that the operator of that node
does not take, and the diagnostic carries this operator and these values
(`exists_fails_of_evaluate_eq_error`). So what goes wrong in a stratified tree is always a fault of
operands (`blamesOperands_of_evaluate`).
-/

set_option autoImplicit false
set_option relaxedAutoImplicit false

namespace Lox

/-! ### Operators that fail -/

theorem TokenKind.IsUnary.exists_symbol {kind : TokenKind} (hunary : kind.IsUnary) :
    ∃ mark, kind = .symbol mark := by
  cases hunary with
  | not => exact ⟨.bang, rfl⟩
  | negate => exact ⟨.minus, rfl⟩

theorem TokenKind.exists_symbol_of_binaryLevel? {kind : TokenKind} {level : Nat}
    (hlevel : kind.binaryLevel? = some level) : ∃ mark, kind = .symbol mark := by
  cases kind with
  | symbol mark => exact ⟨mark, rfl⟩
  | _ => cases hlevel

theorem UnaryOperator.apply_eq_error {operator : UnaryOperator} {token : Token} {operand : Value}
    {fault : Diagnostic} (hfault : operator.apply token operand = .error fault) :
    operator = negate ∧ operand.kind ≠ .number ∧ fault = .operandNotNumber token := by
  cases operator <;> cases operand <;> cases hfault <;> simp [Value.kind]

namespace BinaryOperator

variable {token : Token} {left right : Value} {fault : Diagnostic}

theorem onNumbers_eq_error {compute : Float → Float → Value}
    (hfault : onNumbers compute token left right = .error fault) :
    ¬ (left.kind = .number ∧ right.kind = .number) ∧
      fault = .operandsNotNumbers token left right := by
  cases left <;> cases right <;> cases hfault <;> simp [Value.kind]

theorem sum_eq_error (hfault : sum token left right = .error fault) :
    ¬ (left.kind = .number ∧ right.kind = .number) ∧
      ¬ (left.kind = .string ∧ right.kind = .string) ∧
      fault = .mismatchedOperands token left right := by
  cases left <;> cases right <;> cases hfault <;> simp [Value.kind]

theorem token?_of_apply {operator : BinaryOperator}
    (hfault : operator.apply token left right = .error fault) : fault.token? = some token := by
  cases operator <;> cases left <;> cases right <;> cases hfault <;> rfl

end BinaryOperator

/-- Whether a diagnostic says that an operator does not take operands of these kinds. -/
def Diagnostic.blamesOperands : Diagnostic → Bool
  | operandNotNumber _ | operandsNotNumbers _ _ _ | mismatchedOperands _ _ _ => true
  | _ => false

namespace Expr

/-! ### Nodes that fail -/

/-- The symbols that, between two operands, want both to be numbers. -/
def numericSymbols : List Symbol :=
  [.minus, .slash, .star, .greater, .greaterEqual, .less, .lessEqual]

/-- The operands of a node have values that its operator does not take. The tokens are those that
spell the node. -/
inductive Fails : Expr → List Token → Diagnostic → Prop
  | operandNotNumber {operator : Token} {operand : Expr} {tokens : List Token} {value : Value}
      (hoperator : operator.kind = .symbol .minus) (hoperand : operand.Spells tokens)
      (hvalue : operand.evaluate = .ok value) (hkind : value.kind ≠ .number) :
      Fails (unary operator operand) (operator :: tokens) (.operandNotNumber operator)
  | operandsNotNumbers {operator : Token} {mark : Symbol} {left right : Expr}
      {leftTokens rightTokens : List Token} {leftValue rightValue : Value}
      (hoperator : operator.kind = .symbol mark) (hmark : mark ∈ numericSymbols)
      (hleft : left.Spells leftTokens) (hright : right.Spells rightTokens)
      (hleftValue : left.evaluate = .ok leftValue) (hrightValue : right.evaluate = .ok rightValue)
      (hkinds : ¬ (leftValue.kind = .number ∧ rightValue.kind = .number)) :
      Fails (binary operator left right) (leftTokens ++ operator :: rightTokens)
        (.operandsNotNumbers operator leftValue rightValue)
  | mismatchedOperands {operator : Token} {left right : Expr}
      {leftTokens rightTokens : List Token} {leftValue rightValue : Value}
      (hoperator : operator.kind = .symbol .plus)
      (hleft : left.Spells leftTokens) (hright : right.Spells rightTokens)
      (hleftValue : left.evaluate = .ok leftValue) (hrightValue : right.evaluate = .ok rightValue)
      (hnumbers : ¬ (leftValue.kind = .number ∧ rightValue.kind = .number))
      (hstrings : ¬ (leftValue.kind = .string ∧ rightValue.kind = .string)) :
      Fails (binary operator left right) (leftTokens ++ operator :: rightTokens)
        (.mismatchedOperands operator leftValue rightValue)

theorem fails_unary {token : Token} {operand : Expr} {tokens : List Token} {value : Value}
    {fault : Diagnostic} (hunary : token.kind.IsUnary) (hoperand : operand.Spells tokens)
    (hvalue : operand.evaluate = .ok value) (hfault : token.applyUnary value = .error fault) :
    (unary token operand).Fails (token :: tokens) fault := by
  obtain ⟨operator, hoperator⟩ := TokenKind.isUnary_iff.mp hunary
  rw [Token.applyUnary, hoperator] at hfault
  obtain ⟨rfl, hkind, rfl⟩ := UnaryOperator.apply_eq_error hfault
  obtain ⟨mark, hmark⟩ := hunary.exists_symbol
  rw [hmark] at hoperator
  cases mark <;> cases hoperator
  exact .operandNotNumber hmark hoperand hvalue hkind

theorem fails_binary {token : Token} {level : Nat} {left right : Expr}
    {leftTokens rightTokens : List Token} {leftValue rightValue : Value} {fault : Diagnostic}
    (hlevel : token.kind.binaryLevel? = some level) (hleft : left.Spells leftTokens)
    (hright : right.Spells rightTokens) (hleftValue : left.evaluate = .ok leftValue)
    (hrightValue : right.evaluate = .ok rightValue)
    (hfault : token.applyBinary leftValue rightValue = .error fault) :
    (binary token left right).Fails (leftTokens ++ token :: rightTokens) fault := by
  obtain ⟨operator, hoperator, _⟩ := TokenKind.exists_binaryOperator? hlevel
  rw [Token.applyBinary, hoperator] at hfault
  obtain ⟨mark, hkind⟩ := TokenKind.exists_symbol_of_binaryLevel? hlevel
  rw [hkind] at hoperator
  have hnumeric {compute : Float → Float → Value} (hmark : mark ∈ numericSymbols)
      (hcompute : BinaryOperator.onNumbers compute token leftValue rightValue = .error fault) :
      (binary token left right).Fails (leftTokens ++ token :: rightTokens) fault := by
    obtain ⟨hkinds, rfl⟩ := BinaryOperator.onNumbers_eq_error hcompute
    exact .operandsNotNumbers hkind hmark hleft hright hleftValue hrightValue hkinds
  cases mark <;> cases hoperator
  case plus =>
    obtain ⟨hnumbers, hstrings, rfl⟩ := BinaryOperator.sum_eq_error hfault
    exact .mismatchedOperands hkind hleft hright hleftValue hrightValue hnumbers hstrings
  case equalEqual => cases hfault
  case bangEqual => cases hfault
  all_goals exact hnumeric (by decide) hfault

/-- The diagnostic of a node that fails blames an operator among the tokens of the node. -/
theorem Fails.exists_symbol {node : Expr} {spelling : List Token} {fault : Diagnostic}
    (hfails : node.Fails spelling fault) :
    ∃ token ∈ spelling, fault.token? = some token ∧ ∃ mark, token.kind = .symbol mark := by
  cases hfails with
  | @operandNotNumber operator _ _ _ hoperator _ _ _ =>
    exact ⟨operator, List.mem_cons_self, rfl, _, hoperator⟩
  | @operandsNotNumbers operator _ _ _ _ _ _ _ hoperator _ _ _ _ _ _ =>
    exact ⟨operator, List.mem_append_right _ List.mem_cons_self, rfl, _, hoperator⟩
  | @mismatchedOperands operator _ _ _ _ _ _ hoperator _ _ _ _ _ _ =>
    exact ⟨operator, List.mem_append_right _ List.mem_cons_self, rfl, _, hoperator⟩

theorem Fails.blamesOperands {node : Expr} {spelling : List Token} {fault : Diagnostic}
    (hfails : node.Fails spelling fault) : fault.blamesOperands = true := by
  cases hfails <;> rfl

/-! ### Nodes in a tree -/

/-- A node of a tree, the tokens that spell the node, and those of the tree before and after
these. -/
inductive StandsIn (node : Expr) (spelling : List Token) : Expr → List Token → List Token → Prop
  | self (hspells : node.Spells spelling) : StandsIn node spelling node [] []
  | group {inner : Expr} {before after : List Token} {opening closing : Token}
      (hopening : opening.kind = .symbol .leftParen)
      (hclosing : closing.kind = .symbol .rightParen)
      (hinner : StandsIn node spelling inner before after) :
      StandsIn node spelling (group inner) (opening :: before) (after ++ [closing])
  | operand {operator : Token} {operand : Expr} {before after : List Token}
      (hoperand : StandsIn node spelling operand before after) :
      StandsIn node spelling (unary operator operand) (operator :: before) after
  | left {operator : Token} {left right : Expr} {before after rightTokens : List Token}
      (hleft : StandsIn node spelling left before after) (hright : right.Spells rightTokens) :
      StandsIn node spelling (binary operator left right) before
        (after ++ operator :: rightTokens)
  | right {operator : Token} {left right : Expr} {before after leftTokens : List Token}
      (hleft : left.Spells leftTokens) (hright : StandsIn node spelling right before after) :
      StandsIn node spelling (binary operator left right) (leftTokens ++ operator :: before) after

end Expr

namespace EndsWithOperand

variable {token : Token} {later : List Token}

theorem of_cons (hends : EndsWithOperand (token :: later))
    (htoken : token.kind.endsOperand = false) : EndsWithOperand later := by
  obtain ⟨last, hlast, hoperand⟩ := hends
  cases later with
  | nil =>
    obtain rfl : token = last := by simpa using hlast
    rw [htoken] at hoperand
    cases hoperand
  | cons next rest =>
    rw [List.getLast?_cons_cons] at hlast
    exact ⟨last, hlast, hoperand⟩

/-- Behind a token with which no operand ends, an operand ends only what comes later. -/
theorem of_append_cons {earlier : List Token} (hends : EndsWithOperand (earlier ++ token :: later))
    (htoken : token.kind.endsOperand = false) : EndsWithOperand later := by
  obtain ⟨last, hlast, hoperand⟩ := hends
  rw [List.getLast?_append_cons] at hlast
  exact of_cons ⟨last, hlast, hoperand⟩ htoken

end EndsWithOperand

namespace Expr

/-- No node of a stratified tree begins behind an operand. -/
theorem StandsIn.not_endsWithOperand {node whole : Expr} {spelling before after : List Token}
    (hstands : node.StandsIn spelling whole before after) (hstratified : whole.Stratified) :
    ¬ EndsWithOperand before := by
  induction hstands with
  | self _ =>
    rintro ⟨last, hlast, _⟩
    cases hlast
  | @group _ _ _ opening _ hopening _ _ ih =>
    cases hstratified with
    | group hinner =>
      have hopen : opening.kind.endsOperand = false := by rw [hopening]; rfl
      exact fun hends ↦ ih hinner (hends.of_cons hopen)
  | operand _ ih =>
    cases hstratified with
    | unary hunary _ hoperand =>
      intro hends
      exact ih hoperand (hends.of_cons hunary.endsOperand)
  | left _ _ ih =>
    cases hstratified with
    | binary _ _ _ hleft _ => exact ih hleft
  | right _ _ ih =>
    cases hstratified with
    | binary hlevel _ _ _ hright =>
      intro hends
      exact ih hright (hends.of_append_cons (TokenKind.endsOperand_of_binaryLevel? hlevel))

/-- If a stratified tree cannot be evaluated, one of its nodes fails with the diagnostic of the
tree. -/
theorem exists_fails_of_evaluate_eq_error {expression : Expr} {tokens : List Token}
    (hspells : expression.Spells tokens) (hstratified : expression.Stratified)
    {fault : Diagnostic} (hfault : expression.evaluate = .error fault) :
    ∃ node spelling before after, tokens = before ++ (spelling ++ after) ∧
      StandsIn node spelling expression before after ∧ node.Fails spelling fault := by
  -- An operand that fails passes its node up; else the node itself fails, with nothing around it.
  induction hspells generalizing fault with
  | literal _ => cases hfault
  | @group inner opening closing _ hopening hclosing _ ih =>
    cases hstratified with
    | group hinner =>
      obtain ⟨node, spelling, before, after, rfl, hstands, hfails⟩ := ih hinner hfault
      exact ⟨node, spelling, opening :: before, after ++ [closing], by simp,
        .group hopening hclosing hstands, hfails⟩
  | @unary operator operand _ hoperandSpells ih =>
    cases hstratified with
    | unary hunary _ hoperand =>
      cases hevaluate : operand.evaluate with
      | error inner =>
        rw [evaluate_unary_of_error hevaluate] at hfault
        cases hfault
        obtain ⟨node, spelling, before, after, rfl, hstands, hfails⟩ := ih hoperand hevaluate
        exact ⟨node, spelling, operator :: before, after, rfl, .operand hstands, hfails⟩
      | ok value =>
        rw [evaluate_unary_of_ok hevaluate] at hfault
        exact ⟨_, _, [], [], by simp, .self (.unary hoperandSpells),
          fails_unary hunary hoperandSpells hevaluate hfault⟩
  | @binary operator left right leftTokens rightTokens hleftSpells hrightSpells ihleft ihright =>
    cases hstratified with
    | binary hlevel _ _ hleft hright =>
      cases hevaluateLeft : left.evaluate with
      | error inner =>
        rw [evaluate_binary_of_left_error hevaluateLeft] at hfault
        cases hfault
        obtain ⟨node, spelling, before, after, rfl, hstands, hfails⟩ := ihleft hleft hevaluateLeft
        exact ⟨node, spelling, before, after ++ operator :: rightTokens, by simp,
          .left hstands hrightSpells, hfails⟩
      | ok leftValue =>
        cases hevaluateRight : right.evaluate with
        | error inner =>
          rw [evaluate_binary_of_right_error hevaluateLeft hevaluateRight] at hfault
          cases hfault
          obtain ⟨node, spelling, before, after, rfl, hstands, hfails⟩ :=
            ihright hright hevaluateRight
          exact ⟨node, spelling, leftTokens ++ operator :: before, after, by simp,
            .right hleftSpells hstands, hfails⟩
        | ok rightValue =>
          rw [evaluate_binary_of_ok hevaluateLeft hevaluateRight] at hfault
          exact ⟨_, _, [], [], by simp, .self (.binary hleftSpells hrightSpells),
            fails_binary hlevel hleftSpells hrightSpells hevaluateLeft hevaluateRight hfault⟩

theorem blamesOperands_of_evaluate {expression : Expr} {tokens : List Token}
    (hspells : expression.Spells tokens) (hstratified : expression.Stratified)
    {fault : Diagnostic} (hfault : expression.evaluate = .error fault) :
    fault.blamesOperands = true := by
  obtain ⟨_, _, _, _, _, _, hfails⟩ := exists_fails_of_evaluate_eq_error hspells hstratified hfault
  exact hfails.blamesOperands

end Expr

end Lox
