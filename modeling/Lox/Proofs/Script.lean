import Lox.CommandLine.Basic
import Lox.Proofs.Analysis
import Lox.Proofs.Blame

/-!
# Which scripts are accepted

A script is accepted if nothing is wrong with its lexemes, its tokens begin with an expression that
no binary operator follows, and the expression has a kind (`Accepted`). Tokens begin with at most
one such expression (`BeginsWith.unique`). The program shows a value for an accepted script and
nothing else; for any other script it shows nothing and writes one of four lists of diagnostics
(`shows_iff_accepted`).
-/

set_option autoImplicit false
set_option relaxedAutoImplicit false

namespace Lox

/-! ### Acceptance -/

/-- The first tokens of a row are an expression, and the token behind them is no binary operator.
What comes after it does not matter. -/
structure BeginsWith (tokens spelling : List Token) (expression : Expr) : Prop where
  derives : Derives 1 spelling expression
  exists_next : ∃ next later, tokens = spelling ++ next :: later ∧ next.kind.binaryLevel? = none

/-- A row does not begin with two expressions. -/
theorem BeginsWith.unique {tokens spelling otherSpelling : List Token} {expression other : Expr}
    (hbegins : BeginsWith tokens spelling expression)
    (hother : BeginsWith tokens otherSpelling other) :
    spelling = otherSpelling ∧ expression = other := by
  obtain ⟨hderives, next, later, rfl, hnext⟩ := hbegins
  obtain ⟨hotherDerives, otherNext, otherLater, htokens, hotherNext⟩ := hother
  obtain ⟨hexpression, hspelling⟩ :=
    Reading.eq_of_spells_append hderives.spells hotherDerives.spells hderives.stratified
      hotherDerives.stratified (by simpa using hnext) (by simpa using hotherNext) htokens
  exact ⟨hspelling, hexpression⟩

/-- No lexeme is wrong, and the tokens begin with an expression that has a kind. -/
def Accepted (source : String) : Prop :=
  (scan source).errors = [] ∧
    ∃ spelling expression, BeginsWith (scan source).tokens spelling expression ∧
      ∃ kind, expression.kinds.analyze = .ok kind

namespace Diagnostic

/-- Whether a diagnostic blames a token with which no expression goes on. -/
def isSyntactic : Diagnostic → Bool
  | expectedExpression _ | unclosedParenthesis _ => true
  | _ => false

end Diagnostic

/-- The lists of diagnostics that a script may be rejected with. -/
inductive Rejection : List Diagnostic → Prop
  | openString (line : Nat) : Rejection [.unterminatedString line]
  | openStringAndFault (line : Nat) {fault : Diagnostic} (hfault : fault.isSyntactic = true) :
      Rejection [.unterminatedString line, fault]
  | malformed {fault : Diagnostic} (hfault : fault.isSyntactic = true) : Rejection [fault]
  | operands {fault : Diagnostic} (hfault : fault.blamesOperands = true) : Rejection [fault]

theorem Rejection.ne_nil {reports : List Diagnostic} (hrejection : Rejection reports) :
    reports ≠ [] := by
  cases hrejection <;> simp

/-! ### Verdicts -/

theorem isSyntactic_of_parse_eq_error {parser : Parser} {tokens : List Token}
    (hover : parser.IsOver tokens) {fault : Diagnostic} (hfault : parser.parse.1 = .error fault) :
    fault.isSyntactic = true := by
  obtain ⟨found, _, rfl | ⟨rfl, _⟩⟩ := Parser.exists_found_of_parse_eq_error hover hfault <;> rfl

theorem accepted_of_evaluate {source : String} {expression : Expr} {value : Value}
    (herrors : (scan source).errors = [])
    (hparse : (Parser.ofTokens (scan source).tokens).parse.1 = .ok expression)
    (hvalue : expression.evaluate = .ok value) : Accepted source := by
  obtain ⟨spelling, next, later, htokens, _, hstratified, hspells, hnext⟩ :=
    exists_spelling_of_parse_scan hparse
  have hderives := derives_iff.mpr ⟨hstratified.level_pos, hstratified, hspells⟩
  have hkind := (expression.agrees_analyze.eq_ok_iff value.kind).mpr ⟨value, hvalue, rfl⟩
  exact ⟨herrors, spelling, expression, ⟨hderives, next, later, htokens, hnext⟩, value.kind, hkind⟩

theorem verdict_of_accepted {source : String} (haccepted : Accepted source) :
    ∃ value, verdict false source = ⟨[], some value⟩ := by
  obtain ⟨herrors, spelling, expression, ⟨hderives, next, later, htokens, hnext⟩, kind, hkind⟩ :=
    haccepted
  obtain ⟨_, hstratified, hspells⟩ := derives_iff.mp hderives
  obtain ⟨value, hvalue, _⟩ := (expression.agrees_analyze.eq_ok_iff kind).mp hkind
  have hunread : (Parser.ofTokens (scan source).tokens).unread =
      spelling ++ Parser.body (next :: later) := by
    rw [← Parser.body_spelling_append hstratified hspells, ← htokens]
    rfl
  have hlater : ∀ token ∈ (Parser.body (next :: later)).head?,
      token.kind.binaryLevel? = none := by
    intro token hmem
    cases Parser.mem_head?_of_mem_head?_body hmem
    exact hnext
  have hparse := (Parser.parse_of_unread_eq hunread hstratified hspells hlater).1
  exact ⟨value, by simp [verdict, herrors, hparse, hvalue]⟩

theorem verdict_of_not_accepted {source : String} (hrejected : ¬ Accepted source) :
    ∃ reports, Rejection reports ∧ verdict false source = ⟨reports, none⟩ := by
  cases hparse : (Parser.ofTokens (scan source).tokens).parse.1 with
  | error fault =>
    have hfault := isSyntactic_of_parse_eq_error (Parser.isOver_ofTokens _) hparse
    rcases errors_scan source with herrors | herrors
    · exact ⟨[fault], .malformed hfault, by simp [verdict, herrors, hparse]⟩
    · exact ⟨_, .openStringAndFault (lineAfter 1 source.toList) hfault,
        by simp [verdict, herrors, hparse]⟩
  | ok expression =>
    rcases errors_scan source with herrors | herrors
    · cases hevaluate : expression.evaluate with
      | ok value => exact absurd (accepted_of_evaluate herrors hparse hevaluate) hrejected
      | error fault =>
        exact ⟨[fault], .operands (blamesOperands_of_parse_scan hparse hevaluate),
          by simp [verdict, herrors, hparse, hevaluate]⟩
    · exact ⟨_, .openString (lineAfter 1 source.toList), by simp [verdict, herrors, hparse]⟩

/-! ### Scripts -/

namespace CommandLine

/-- The program ends well, with the text of a value on its output and nothing else. -/
def Shows (transcript : Transcript) : Prop :=
  transcript.status.code = 0 ∧ transcript.stderr = [] ∧
    ∃ value : Value, transcript.stdout = Octets.ofText (value.text ++ "\n")

/-- The program complains of its data, with diagnostics and nothing else. -/
def Rejects (transcript : Transcript) : Prop :=
  transcript.status.code = 65 ∧ transcript.stdout = [] ∧ transcript.stderr ≠ [] ∧
    ∃ reports, Rejection reports ∧ transcript.stderr = Octets.ofReports reports

theorem runScript_eq (source : String) :
    runScript source =
      match (verdict false source).value? with
      | some value =>
        ⟨Octets.ofText (value.text ++ "\n"), Octets.ofReports (verdict false source).reports,
          .success⟩
      | none => ⟨[], Octets.ofReports (verdict false source).reports, .badData⟩ := by
  unfold runScript
  rw [Reporting.runWith_run_fresh]
  cases (verdict false source).value? <;> rfl

theorem shows_runScript {source : String} (haccepted : Accepted source) :
    Shows (runScript source) := by
  obtain ⟨value, hverdict⟩ := verdict_of_accepted haccepted
  rw [runScript_eq, hverdict]
  exact ⟨rfl, rfl, value, rfl⟩

theorem rejects_runScript {source : String} (hrejected : ¬ Accepted source) :
    Rejects (runScript source) := by
  obtain ⟨reports, hrejection, hverdict⟩ := verdict_of_not_accepted hrejected
  rw [runScript_eq, hverdict]
  exact ⟨rfl, rfl, Octets.ofReports_ne_nil hrejection.ne_nil, reports, hrejection, rfl⟩

theorem not_shows_of_rejects {transcript : Transcript} (hrejects : Rejects transcript) :
    ¬ Shows transcript := by
  intro hshows
  have hcode := hshows.1
  rw [hrejects.1] at hcode
  cases hcode

theorem respondWith_script (abort : String → Abort) {files : String → Except FileFault Octets}
    {path source : String} (hfile : files path = .ok (Octets.ofText source)) (input : Octets) :
    respondWith abort files input [path] = runScript source := by
  simp [respondWith, runFile, hfile, Octets.text?_ofText]

/-- A script is either accepted or rejected. A value is shown for it if and only if its text is
accepted, which is decided by the one expression that its tokens begin with. -/
theorem shows_iff_accepted (abort : String → Abort) {files : String → Except FileFault Octets}
    {path source : String} (hfile : files path = .ok (Octets.ofText source)) (input : Octets) :
    (Shows (respondWith abort files input [path]) ↔ Accepted source) ∧
      (Rejects (respondWith abort files input [path]) ↔ ¬ Accepted source) ∧
      ∀ spelling otherSpelling expression other,
        BeginsWith (scan source).tokens spelling expression →
        BeginsWith (scan source).tokens otherSpelling other →
        spelling = otherSpelling ∧ expression = other := by
  rw [respondWith_script abort hfile]
  refine and_assoc.mp ⟨?_, fun _ _ _ _ hbegins hother ↦ hbegins.unique hother⟩
  by_cases haccepted : Accepted source
  · have hshows := shows_runScript haccepted
    exact ⟨iff_of_true hshows haccepted,
      iff_of_false (fun hrejects ↦ not_shows_of_rejects hrejects hshows) (not_not_intro haccepted)⟩
  · have hrejects := rejects_runScript haccepted
    exact ⟨iff_of_false (not_shows_of_rejects hrejects) haccepted, iff_of_true hrejects haccepted⟩

/-- The sums are of a higher level than the equation. What stands behind the expression does no harm
unless a string is open there. -/
theorem accepted_equation_of_sums :
    (Shows (respond (fun _ ↦ .ok (Octets.ofText "1 + 2 == 3 + 4 ; +")) [] ["sums.lox"]) ∧
        Accepted "1 + 2 == 3 + 4 ; +") ∧
      Rejects (respond (fun _ ↦ .ok (Octets.ofText "1 + 2 == 3 + 4 ; \"+")) [] ["sums.lox"]) ∧
        ¬ Accepted "1 + 2 == 3 + 4 ; \"+" := by
  have hshows : Shows
      (respond (fun _ ↦ .ok (Octets.ofText "1 + 2 == 3 + 4 ; +")) [] ["sums.lox"]) :=
    ⟨by decide +kernel, by decide +kernel, .bool false, by decide +kernel⟩
  have hrejects : Rejects
      (respond (fun _ ↦ .ok (Octets.ofText "1 + 2 == 3 + 4 ; \"+")) [] ["sums.lox"]) :=
    ⟨by decide +kernel, by decide +kernel, by decide +kernel, _, .openString 1,
      by decide +kernel⟩
  exact ⟨⟨hshows, (shows_iff_accepted Abort.usual rfl []).1.mp hshows⟩,
    hrejects, (shows_iff_accepted Abort.usual rfl []).2.1.mp hrejects⟩

end CommandLine

end Lox
