import Lox.Proofs.Composition
import Lox.Proofs.Lexing.Joining

/-!
# What follows an expression

A run looks at one token behind the expression that it reads. If a source text is a whole
expression, and the text on the lines below it does not begin with a binary operator, then nothing
in that text is parsed, whatever it is. All that can come of it is an open string: without one the
run is that of the expression alone, and with one the run reports the string and evaluates nothing
(`run_followed`).
-/

set_option autoImplicit false
set_option relaxedAutoImplicit false

namespace Lox

open Reporting

/-! ### Open strings -/

/-- An open string is all that is reported if the text begins with an expression. -/
theorem runWith_run_of_not_isClosed {source : String} {expression : Expr}
    (hopen : ¬ IsClosed source.toList)
    (hparse : (Parser.ofTokens (scan source).tokens).parse.1 = .ok expression)
    (reporter : Reporter) :
    runWith (run source) reporter =
      runWith (conclude (.error (.unterminatedString (lineAfter 1 source.toList)))) reporter := by
  have herrors : (scan source).errors = [.unterminatedString (lineAfter 1 source.toList)] :=
    errors_scanFrom_of_not_isClosed hopen 1
  have hverdict : verdict reporter.hadError source =
      ⟨[.unterminatedString (lineAfter 1 source.toList)], none⟩ := by
    simp [verdict, herrors, hparse]
  rw [runWith_run_eq_report, hverdict]
  simp only [conclude, forM_report_cons, runWith_bind]
  cases runWith (report (.unterminatedString (lineAfter 1 source.toList))) reporter with
  | mk result after => cases result <;> rfl

/-! ### Texts behind an expression -/

section Followed

variable {first second : String} {expression : Expr}

theorem toList_followed (first second : String) :
    (first ++ "\n" ++ second).toList = first.toList ++ '\n' :: second.toList := by
  simp

theorem isClosed_followed_iff (hclosed : IsClosed first.toList) :
    IsClosed (first ++ "\n" ++ second).toList ↔ IsClosed second.toList := by
  rw [toList_followed]
  exact isClosed_append_separator_iff hclosed (by decide) (.inl rfl) second.toList

/-- On whatever line a text begins, its first token is of the same kind. -/
theorem binaryLevel?_head?_tokensFrom
    (hnext : ∀ token ∈ (scan second).tokens.head?, token.kind.binaryLevel? = none)
    (distance : Nat) :
    ∀ token ∈ (tokensFrom (1 + distance) second.toList).head?,
      token.kind.binaryLevel? = none := by
  rw [tokensFrom_add]
  intro token hmem
  rw [List.head?_map] at hmem
  obtain ⟨found, hfound, rfl⟩ := Option.map_eq_some_iff.mp hmem
  refine hnext found ?_
  rw [scan_eq_scanFrom, tokens_scanFrom, List.head?_append, hfound]
  rfl

/-- The tree of a whole expression is also that of the expression with a text below it. -/
theorem Reads.parse_followed (hreads : Reads first expression)
    (hnext : ∀ token ∈ (scan second).tokens.head?, token.kind.binaryLevel? = none) :
    (Parser.ofTokens (scan (first ++ "\n" ++ second)).tokens).parse.1 = .ok expression := by
  obtain ⟨hclosed, hstratified, hspells⟩ := reads_iff.mp hreads
  have hline : lineAfter 1 (first.toList ++ ['\n']) = 1 + (first.toList ++ ['\n']).count '\n' := rfl
  have hunread : (Parser.ofTokens (scan (first ++ "\n" ++ second)).tokens).unread =
      tokensFrom 1 first.toList ++
        tokensFrom (1 + (first.toList ++ ['\n']).count '\n') second.toList := by
    rw [← hline, ← tokensFrom_append_separator hclosed (by decide) (.inl rfl), ← toList_followed]
    exact tokens_ofTokens_scan _
  exact (Parser.parse_of_unread_eq hunread hstratified hspells
    (binaryLevel?_head?_tokensFrom hnext _)).1

/-- What stands below a whole expression is ignored, unless it goes on with a binary operator, but
for an open string. Then the expression is not evaluated, and the string is all that is reported, on
the last line. -/
theorem run_followed (hreads : Reads first expression)
    (hnext : ∀ token ∈ (scan second).tokens.head?, token.kind.binaryLevel? = none)
    {reporter : Reporter} (hclear : reporter.hadError = false) :
    let whole := first ++ "\n" ++ second
    ((scan second).errors = [] → runWith (run whole) reporter = runWith (run first) reporter) ∧
      ((scan second).errors ≠ [] →
        runWith (run whole) reporter =
          runWith (conclude (.error (.unterminatedString (1 + whole.toList.count '\n'))))
            reporter) := by
  intro whole
  have hparse := hreads.parse_followed hnext
  have hwhole := @isClosed_followed_iff first second (reads_iff.mp hreads).1
  constructor
  · intro herrors
    have hclosed := hwhole.mpr (errors_scanFrom_eq_nil_iff.mp herrors)
    rw [runWith_run_of_parse (errors_scanFrom_eq_nil_iff.mpr hclosed) hparse hclear,
      runWith_run_of_reads hreads hclear]
  · intro herrors
    exact runWith_run_of_not_isClosed
      (mt hwhole.mp (mt errors_scanFrom_eq_nil_iff.mpr herrors)) hparse reporter

/-- The fault of the expression is not found where a string is open further down. -/
theorem run_followed_negated_nil :
    let negation := Expr.unary ⟨.symbol .minus, "-", 1⟩ (.literal .nil)
    Reads "-nil // (" negation ∧
      ((∀ token ∈ (scan ") + var").tokens.head?, token.kind.binaryLevel? = none) ∧
        (scan ") + var").errors = [] ∧
        runWith (run ("-nil // (" ++ "\n" ++ ") + var")) (.fresh none) =
          (.ok none,
            .unbounded (Octets.ofText "[line 1] Error at '-': Operand must be a number.\n") true)) ∧
      (∀ token ∈ (scan "; \"var\n").tokens.head?, token.kind.binaryLevel? = none) ∧
        (scan "; \"var\n").errors ≠ [] ∧
        runWith (run ("-nil // (" ++ "\n" ++ "; \"var\n")) (.fresh none) =
          (.ok none, .unbounded (Octets.ofText "[line 3] Error: Unterminated string.\n") true) := by
  intro negation
  have hreads : Reads "-nil // (" negation := ⟨by cbv, by cbv, by cbv⟩
  have hclosedNext : ∀ token ∈ (scan ") + var").tokens.head?,
      token.kind.binaryLevel? = none := by decide +kernel
  have hopenNext : ∀ token ∈ (scan "; \"var\n").tokens.head?,
      token.kind.binaryLevel? = none := by decide +kernel
  have hclosed : (scan ") + var").errors = [] := by cbv
  have hopen : (scan "; \"var\n").errors ≠ [] := by
    rw [show (scan "; \"var\n").errors = [.unterminatedString 2] by cbv]
    exact List.cons_ne_nil _ _
  refine ⟨hreads, ⟨hclosedNext, hclosed, ?_⟩, hopenNext, hopen, ?_⟩
  · rw [(run_followed hreads hclosedNext rfl).1 hclosed]
    cbv
  · rw [(run_followed hreads hopenNext rfl).2 hopen]
    cbv

end Followed

end Lox
