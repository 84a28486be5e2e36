import Lox.Proofs.Writing

/-!
# Results as source texts

No string that a run gives has a quote inside: the strings of a source text have none, and a sum of
strings has no others (`QuoteFree`, `quoteFree_of_runWith_run`). So every result but a number that
is not finite can be written as a literal, and a negative number as the opposite of one. The run of
that text gives the result again, the same bits if it is a number, and reports nothing
(`run_text_of_result`).
-/

set_option autoImplicit false
set_option relaxedAutoImplicit false

namespace Lox

open Reporting

/-! ### Strings without quotes -/

/-- The value is no string with a quote inside. -/
def Value.QuoteFree (value : Value) : Prop :=
  ∀ characters : String, value = .string characters → '"' ∉ characters.toList

theorem UnaryOperator.quoteFree_of_apply {operator : UnaryOperator} {token : Token}
    {operand value : Value} (happly : operator.apply token operand = .ok value) :
    value.QuoteFree := by
  rintro characters rfl
  cases operator <;> cases operand <;> cases happly

theorem BinaryOperator.quoteFree_of_apply {operator : BinaryOperator} {token : Token}
    {left right value : Value} (hleft : left.QuoteFree) (hright : right.QuoteFree)
    (happly : operator.apply token left right = .ok value) : value.QuoteFree := by
  rintro characters rfl
  cases operator with
  | add =>
    cases left <;> cases right <;> cases happly
    rw [String.toList_append, List.mem_append, not_or]
    exact ⟨hleft _ rfl, hright _ rfl⟩
  | _ => cases left <;> cases right <;> cases happly

theorem TokenKind.IsLiteral.eq_string {kind : TokenKind} {characters : String}
    (hliteral : kind.IsLiteral (.string characters)) : kind = .string characters := by
  cases hliteral
  rfl

/-- A tree that is spelled without strings that have quotes inside does not come to one. -/
theorem Expr.quoteFree_of_evaluate {expression : Expr} {tokens : List Token} {value : Value}
    (hspells : expression.Spells tokens)
    (htokens : ∀ token ∈ tokens, ∀ characters : String, token.kind = .string characters →
      '"' ∉ characters.toList)
    (hvalue : expression.evaluate = .ok value) : value.QuoteFree := by
  induction hspells generalizing value with
  | @literal _ token hliteral =>
    cases hvalue
    rintro characters rfl
    exact htokens token (List.mem_singleton_self token) characters hliteral.eq_string
  | group _ _ _ ih => exact ih (fun token hmem ↦ htokens token (by simp [hmem])) hvalue
  | unary _ _ =>
    obtain ⟨operandValue, _, happly⟩ := exists_evaluate_unary hvalue
    unfold Token.applyUnary at happly
    split at happly
    case h_1 => exact UnaryOperator.quoteFree_of_apply happly
    case h_2 => cases happly
  | binary _ _ ihleft ihright =>
    obtain ⟨leftValue, rightValue, hleft, hright, happly⟩ := exists_evaluate_binary hvalue
    have hleftFree := ihleft (fun token hmem ↦ htokens token (by simp [hmem])) hleft
    have hrightFree := ihright (fun token hmem ↦ htokens token (by simp [hmem])) hright
    unfold Token.applyBinary at happly
    split at happly
    case h_1 => exact BinaryOperator.quoteFree_of_apply hleftFree hrightFree happly
    case h_2 => cases happly

/-- No run gives a string with a quote inside. -/
theorem quoteFree_of_runWith_run {source : String} {reporter : Reporter} {value : Value}
    (hrun : (runWith (run source) reporter).1 = .ok (some value)) : value.QuoteFree := by
  obtain ⟨expression, hparse, hvalue⟩ := exists_evaluate_of_value? (value?_of_runWith_run hrun)
  obtain ⟨spelling, hsubset, _, hspells⟩ := exists_spelling_subset_of_parse_scan hparse
  exact Expr.quoteFree_of_evaluate hspells
    (fun _ hmem _ hkind ↦ quote_not_mem_of_mem_tokens (hsubset hmem) hkind) hvalue

/-! ### Reading results -/

/-- The value is no number, or a finite one. -/
def Value.IsFinite : Value → Prop
  | number value => Number.magnitude value < Binary64.infinity
  | _ => True

theorem reads_literal {value : Value} (hwritable : value.IsWritable) :
    Reads (Expr.literal value).text (.literal value) := by
  obtain ⟨kind, hliteral, htakes⟩ := exists_takes_literal hwritable
  refine reads_iff.mpr ⟨(isComplete_of_takes_alone htakes).isClosed, .literal value, ?_⟩
  rw [tokensFrom_of_takes_alone htakes]
  exact .literal hliteral

/-- The tree of the text of a number that has a sign. -/
def negatedMagnitude (number : Float) : Expr :=
  .unary (Symbol.minus.tokenOn 1)
    (.literal (.number (Number.ofPattern (Number.magnitude number))))

theorem evaluate_negatedMagnitude {number : Float} (hsigned : Number.isSigned number = true)
    (hfinite : Number.magnitude number < Binary64.infinity) :
    (negatedMagnitude number).evaluate = .ok (.number number) := by
  have hnegate : (negatedMagnitude number).evaluate =
      .ok (.number (-Number.ofPattern (Number.magnitude number))) := rfl
  rw [hnegate, Number.neg_ofPattern_magnitude hsigned hfinite]

theorem reads_negatedMagnitude {number : Float} (hsigned : Number.isSigned number = true)
    (hfinite : Number.magnitude number < Binary64.infinity) :
    Reads (Expr.literal (.number number)).text (negatedMagnitude number) := by
  have htext : (Expr.literal (.number number)).text.toList =
      Symbol.minus.characters ++ (Binary64.shortest (Number.magnitude number)).text.toList := by
    simp [Expr.text, Value.text, Number.text_of_isSigned hsigned hfinite, Symbol.characters]
  have hplain : Symbol.minus.withEqual? = none := rfl
  have hminus := takes_symbol_of_withEqual?_eq_none hplain (by decide)
    (Binary64.shortest (Number.magnitude number)).text.toList
  have hnumeral := takes_shortest (Nat.le_of_lt hfinite)
  refine reads_iff.mpr ⟨?_, .unary .negate (by decide : 5 ≤ 6) (.literal _), ?_⟩
  · rw [htext, isClosed_iff_of_takes hminus]
    exact ⟨by simp, (isComplete_of_takes_alone hnumeral).isClosed⟩
  · rw [htext, tokensFrom_of_takes hminus, Symbol.lineAfter_characters,
      tokensFrom_of_takes_alone hnumeral]
    exact .unary (.literal (.number _))

/-- A finite result is read from its text. -/
theorem exists_reads_text {value : Value} (hfree : value.QuoteFree) (hfinite : value.IsFinite) :
    ∃ expression, Reads (Expr.literal value).text expression ∧ expression.evaluate = .ok value := by
  cases value with
  | nil => exact ⟨.literal .nil, reads_literal trivial, rfl⟩
  | bool truth => exact ⟨.literal (.bool truth), reads_literal trivial, rfl⟩
  | string characters =>
    exact ⟨.literal (.string characters), reads_literal (hfree characters rfl), rfl⟩
  | number number =>
    cases hsigned : Number.isSigned number with
    | false => exact ⟨.literal (.number number), reads_literal ⟨hsigned, hfinite⟩, rfl⟩
    | true =>
      exact ⟨negatedMagnitude number, reads_negatedMagnitude hsigned hfinite,
        evaluate_negatedMagnitude hsigned hfinite⟩

/-- What a run gives has no quote inside, and unless it is a number that is not finite, the run of
its text gives it again and reports nothing. -/
theorem run_text_of_result {source : String} {reporter again : Reporter} {value : Value}
    (hrun : (runWith (run source) reporter).1 = .ok (some value))
    (hclear : again.hadError = false) :
    (∀ characters : String, value = .string characters → '"' ∉ characters.toList) ∧
      (value.IsFinite →
        runWith (run (Expr.literal value).text) again = (.ok (some value), again)) := by
  have hfree := quoteFree_of_runWith_run hrun
  refine ⟨hfree, fun hfinite ↦ ?_⟩
  obtain ⟨expression, hreads, hvalue⟩ := exists_reads_text hfree hfinite
  rw [runWith_run_of_reads hreads hclear, hvalue]
  rfl

/-- The newline and the slashes of a string are read as they were written. -/
theorem run_text_of_result_concatenation :
    (runWith (run "\"a\" + \"//\n\"") (.fresh none)).1 = .ok (some (.string "a//\n")) ∧
      '"' ∉ "a//\n".toList ∧
      runWith (run "\"a//\n\"") (.fresh none) = (.ok (some (.string "a//\n")), .fresh none) := by
  have hrun : (runWith (run "\"a\" + \"//\n\"") (.fresh none)).1 =
      .ok (some (.string "a//\n")) := by
    cbv
  obtain ⟨hfree, hagain⟩ := @run_text_of_result _ _ (.fresh none) _ hrun rfl
  exact ⟨hrun, hfree "a//\n" rfl, hagain trivial⟩

/-- Negative zero keeps its sign in its text. -/
example : (Expr.literal (.number (-0.0))).text = "-0" := by
  decide +kernel

end Lox
