import Lox.Proofs.Script
import Lox.Proofs.Session.Requests

/-!
# What a session leaves to its next request

All that a request of a session finds of the earlier ones is whether a diagnostic is remembered,
which is so exactly if one was reported since the latest reset (`hadError_session_iff`). If none is,
a run answers as it does with a fresh reporter; if one is, the run gives no value and writes only
those diagnostics that the fresh run finds before it evaluates anything (`verdict_true`). A value is
given exactly by the runs that find nothing remembered and write nothing (`answer_in_session`).
-/

set_option autoImplicit false
set_option relaxedAutoImplicit false

namespace Lox

open Reporter

namespace Diagnostic

/-- Whether a diagnostic is about a lexeme. -/
def isLexical : Diagnostic → Bool
  | unterminatedString _ | malformedNumeral _ _ => true
  | _ => false

/-- Whether a diagnostic is found without evaluating anything. -/
def precedesEvaluation (diagnostic : Diagnostic) : Bool :=
  diagnostic.isLexical || diagnostic.isSyntactic

theorem precedesEvaluation_of_isSyntactic {diagnostic : Diagnostic}
    (hsyntactic : diagnostic.isSyntactic = true) : diagnostic.precedesEvaluation = true := by
  rw [precedesEvaluation, hsyntactic, Bool.or_true]

theorem precedesEvaluation_of_blamesOperands {diagnostic : Diagnostic}
    (hblames : diagnostic.blamesOperands = true) : diagnostic.precedesEvaluation = false := by
  cases diagnostic <;> first | rfl | cases hblames

end Diagnostic

/-! ### What a remembered diagnostic changes -/

theorem precedesEvaluation_of_mem_errors {source : String} {diagnostic : Diagnostic}
    (hmem : diagnostic ∈ (scan source).errors) : diagnostic.precedesEvaluation = true := by
  rcases errors_scan source with hnone | hopen
  · rw [hnone] at hmem
    cases hmem
  · rw [hopen] at hmem
    rw [List.mem_singleton.mp hmem]
    rfl

/-- If a diagnostic is remembered, nothing is evaluated and the rest is reported as it is
otherwise. -/
theorem verdict_true (source : String) :
    verdict true source =
      ⟨(verdict false source).reports.filter Diagnostic.precedesEvaluation, none⟩ := by
  have herrors : (scan source).errors.filter Diagnostic.precedesEvaluation =
      (scan source).errors :=
    List.filter_eq_self.mpr fun _ ↦ precedesEvaluation_of_mem_errors
  unfold verdict
  simp only [Bool.true_or, if_true, Bool.false_or]
  cases hparse : (Parser.ofTokens (scan source).tokens).parse.1 with
  | error fault =>
    have hfault := Diagnostic.precedesEvaluation_of_isSyntactic
      (isSyntactic_of_parse_eq_error (Parser.isOver_ofTokens _) hparse)
    simp [herrors, hfault]
  | ok expression =>
    cases hnone : !(scan source).errors.isEmpty with
    | true => simp [herrors]
    | false =>
      simp only [Bool.false_eq_true, if_false]
      cases hevaluate : expression.evaluate with
      | ok value => simp [herrors]
      | error fault =>
        have hfault := Diagnostic.precedesEvaluation_of_blamesOperands
          (blamesOperands_of_parse_scan hparse hevaluate)
        simp [herrors, hfault]

/-- A run gives a value exactly if nothing is remembered and it reports nothing. -/
theorem exists_value?_iff {hadError : Bool} {source : String} :
    (∃ value, (verdict hadError source).value? = some value) ↔
      hadError = false ∧ (verdict hadError source).reports = [] := by
  unfold verdict
  cases (Parser.ofTokens (scan source).tokens).parse.1 with
  | error fault => simp
  | ok expression =>
    simp only
    cases hflag : hadError || !(scan source).errors.isEmpty with
    | true =>
      have hfound (hclear : hadError = false) : (scan source).errors ≠ [] := by
        simpa [hclear] using hflag
      simpa using hfound
    | false =>
      obtain ⟨hclear, herrors⟩ := Bool.or_eq_false_iff.mp hflag
      cases expression.evaluate with
      | ok value => simpa [hclear] using herrors
      | error fault => simp

/-! ### What is remembered -/

/-- Some request reports something, and no later one makes the reporter forget it. Every diagnostic
takes a line, so the requests that report something are those that write. -/
def ReportedSinceReset (start : Reporter) (requests : List Request) : Prop :=
  ∃ earlier reporting since, requests = earlier ++ reporting :: since ∧
    (reporting.answer (session start earlier).2).1.written ≠ [] ∧ .reset ∉ since

theorem not_reportedSinceReset_nil (start : Reporter) : ¬ ReportedSinceReset start [] := by
  rintro ⟨earlier, reporting, since, hrequests, _⟩
  simp at hrequests

theorem reportedSinceReset_concat {start : Reporter} {before : List Request} {request : Request} :
    ReportedSinceReset start (before ++ [request]) ↔
      (request.answer (session start before).2).1.written ≠ [] ∨
        request ≠ .reset ∧ ReportedSinceReset start before := by
  constructor
  · rintro ⟨earlier, reporting, since, hrequests, hwritten, hsince⟩
    rcases List.eq_nil_or_concat since with rfl | ⟨between, last, rfl⟩
    · obtain ⟨rfl, hlast⟩ := List.append_inj' hrequests rfl
      cases hlast
      exact .inl hwritten
    · rw [List.concat_eq_append] at hsince
      rw [List.concat_eq_append, ← List.cons_append, ← List.append_assoc] at hrequests
      obtain ⟨rfl, hlast⟩ := List.append_inj' hrequests rfl
      cases hlast
      simp only [List.mem_append, List.mem_singleton, not_or] at hsince
      exact .inr ⟨Ne.symm hsince.2, earlier, reporting, between, rfl, hwritten, hsince.1⟩
  · rintro (hwritten | ⟨hrequest, earlier, reporting, since, rfl, hwritten, hsince⟩)
    · exact ⟨before, request, [], rfl, hwritten, List.not_mem_nil⟩
    · refine ⟨earlier, reporting, since ++ [request], by simp, hwritten, ?_⟩
      simpa using ⟨hsince, Ne.symm hrequest⟩

theorem session_unbounded (octets : Octets) (requests : List Request) :
    (session (unbounded octets false) requests).2 =
      unbounded (octets ++ octetsOf false requests) (requests.foldl Request.remembers false) := by
  rw [← given_none, session_given]
  rfl

theorem hadError_session (octets : Octets) (requests : List Request) :
    (session (unbounded octets false) requests).2.hadError =
      requests.foldl Request.remembers false := by
  rw [session_unbounded]
  rfl

/-- A diagnostic is remembered exactly if one was reported since the latest reset. -/
theorem hadError_session_iff (octets : Octets) (requests : List Request) :
    (session (unbounded octets false) requests).2.hadError = true ↔
      ReportedSinceReset (unbounded octets false) requests := by
  induction requests using List.reverseRecOn with
  | nil => exact iff_of_false Bool.false_ne_true (not_reportedSinceReset_nil _)
  | append_singleton before request ih =>
    rw [reportedSinceReset_concat, ← ih, hadError_session, hadError_session, session_unbounded,
      List.foldl_concat, Request.remembers_iff, ← given_none, Request.answer_given,
      Request.answerAt_none]

/-! ### Sessions -/

theorem answerAt_run (source : String) (octets : Octets) (hadError : Bool) :
    (Request.run source).answerAt none octets hadError =
      ⟨.ok (verdict hadError source).value?, .ofReports (verdict hadError source).reports,
        hadError || !(verdict hadError source).reports.isEmpty⟩ :=
  Request.answerAt_none (.run source) octets hadError

theorem exists_result_run_iff {source : String} {octets : Octets} {hadError : Bool} :
    (∃ value, ((Request.run source).answerAt none octets hadError).result = .ok (some value)) ↔
      hadError = false ∧ ((Request.run source).answerAt none octets hadError).written = [] := by
  rw [answerAt_run, Octets.ofReports_eq_nil_iff, ← exists_value?_iff]
  simp

/-- In a session with a log without a bound, a diagnostic is remembered after each request exactly
if one was reported since the latest reset. A run that finds none remembered answers as with a fresh
reporter. One that finds one gives no value and writes what the fresh run reports before it
evaluates anything. A value is given exactly by the runs that find none and write nothing. -/
theorem answer_in_session (octets : Octets) (before later : List Request) (request : Request) :
    let start := unbounded octets false
    let entered := (session start before).2.hadError
    ∃ answer, (session start (before ++ request :: later)).1[before.length]? = some answer ∧
      (answer.hadError = true ↔ ReportedSinceReset start (before ++ [request])) ∧
      ∀ source, request = .run source →
        let alone := ((Request.run source).answer (.fresh none)).1
        let reports := (verdict false source).reports
        alone.written = .ofReports reports ∧
        (entered = false → answer = alone) ∧
        (entered = true → answer.result = .ok none ∧
          answer.written = .ofReports (reports.filter Diagnostic.precedesEvaluation)) ∧
        ((∃ value, answer.result = .ok (some value)) ↔
          entered = false ∧ answer.written = []) ∧
        ((∃ value, answer.result = .ok (some value)) → answer.hadError = false) := by
  intro start entered
  obtain ⟨hadError, hentered⟩ : ∃ hadError, entered = hadError := ⟨_, rfl⟩
  have hbefore : before.foldl Request.remembers false = hadError :=
    (hadError_session octets before).symm.trans hentered
  refine ⟨request.answerAt none (octets ++ octetsOf false before) hadError, ?_, ?_, ?_⟩
  · change (session (given none octets false) (before ++ request :: later)).1[before.length]? = _
    rw [getElem?_session_given]
    simp [hbefore]
  · rw [← hadError_session_iff, hadError_session, List.foldl_concat, hbefore]
    rfl
  · rintro source rfl alone reports
    have halone : alone = (Request.run source).answerAt none [] false := by
      change ((Request.run source).answer (.fresh none)).1 = _
      rw [fresh_eq_given, Request.answer_given]
    rw [hentered, halone]
    refine ⟨?_, ?_, ?_, exists_result_run_iff, ?_⟩
    · rw [answerAt_run]
    · rintro rfl
      rw [answerAt_run, answerAt_run]
    · rintro rfl
      rw [answerAt_run, verdict_true]
      exact ⟨rfl, rfl⟩
    · intro hvalue
      obtain ⟨hclear, hwritten⟩ := exists_result_run_iff.mp hvalue
      rw [answerAt_run, Octets.ofReports_eq_nil_iff] at hwritten
      rw [answerAt_run, hwritten, hclear]
      rfl

/-- What an earlier run has reported hides a fault of operands, and stays remembered. -/
theorem answer_in_session_negation :
    ∃ answer, (session (unbounded [] false)
        [.run "nil +", .run "-nil", .reset]).1[1]? = some answer ∧
      ((Request.run "-nil").answer (.fresh none)).1.written ≠ [] ∧
      answer.result = .ok none ∧ answer.written = [] ∧ answer.hadError = true := by
  obtain ⟨answer, hanswer, hremembered, hrun⟩ :=
    answer_in_session [] [.run "nil +"] [.reset] (.run "-nil")
  obtain ⟨halone, _, hsuppressed, _⟩ := hrun "-nil" rfl
  obtain ⟨hresult, hwritten⟩ := hsuppressed (by decide +kernel)
  have hsince : ReportedSinceReset (unbounded [] false) [.run "nil +", .run "-nil"] :=
    ⟨[], .run "nil +", [.run "-nil"], rfl, by decide +kernel, by simp⟩
  refine ⟨answer, hanswer, ?_, hresult, hwritten.trans ?_, hremembered.mpr hsince⟩
  · rw [halone]
    decide +kernel
  · decide +kernel

end Lox
