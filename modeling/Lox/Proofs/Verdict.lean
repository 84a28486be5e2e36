import Mathlib
import Lox.Session

/-!
# The verdict of a run

`verdict` says what a run reports and gives, as a function of the source text and of whether a
diagnostic is remembered. With any reporter, a run reports the diagnostics of its verdict in their
order, as far as the log takes them, and then gives the value (`runWith_run_eq_report`). Over a log
without a bound that is all that a run does (`runWith_run`); over any log the octets that it holds
are those that fit of all that it was given (`runWith_forM_report_given`).
-/

set_option autoImplicit false
set_option relaxedAutoImplicit false

namespace Lox

/-- Diagnostics as they are written, a line for each. -/
def Octets.ofReports (diagnostics : List Diagnostic) : Octets :=
  diagnostics.flatMap fun diagnostic ↦ Octets.ofText (diagnostic.text ++ "\n")

theorem Octets.ofReports_append (first second : List Diagnostic) :
    ofReports (first ++ second) = ofReports first ++ ofReports second :=
  List.flatMap_append

theorem Octets.ofReports_eq_flatMap_text (diagnostics : List Diagnostic) :
    ofReports diagnostics =
      (diagnostics.map Diagnostic.text).flatMap fun text ↦ Octets.ofText (text ++ "\n") := by
  rw [List.flatMap_map]
  rfl

theorem Octets.ofReports_ne_nil {reports : List Diagnostic} (hne : reports ≠ []) :
    ofReports reports ≠ [] := by
  cases reports with
  | nil => exact absurd rfl hne
  | cons diagnostic rest =>
    have hnewline : ofText "\n" ≠ [] := by decide
    simp [ofReports, hnewline]

/-- What a run reports, and the value that it gives. -/
structure Verdict where
  reports : List Diagnostic
  value? : Option Value

/-- The verdict on a source text, given whether a diagnostic is remembered. -/
def verdict (hadError : Bool) (source : String) : Verdict :=
  let errors := (scan source).errors
  match (Parser.ofTokens (scan source).tokens).parse.1 with
  | .error fault => ⟨errors ++ [fault], none⟩
  | .ok expression =>
    if hadError || !errors.isEmpty then ⟨errors, none⟩
    else
      match expression.evaluate with
      | .ok value => ⟨errors, some value⟩
      | .error fault => ⟨errors ++ [fault], none⟩

namespace Log

/-! ### What fits -/

variable {capacity? : Option Nat} {octets : Octets}

theorem fits_of_append {more : Octets} (hfits : fits capacity? (octets ++ more) = true) :
    fits capacity? octets = true := by
  cases capacity? with
  | none => rfl
  | some capacity =>
    simp only [fits, List.length_append, decide_eq_true_eq] at hfits ⊢
    omega

/-- A log that is full takes nothing more. -/
theorem cutTo_append_of_fits_eq_false (hfull : fits capacity? octets = false) (more : Octets) :
    cutTo capacity? (octets ++ more) = cutTo capacity? octets := by
  cases capacity? with
  | none => cases hfull
  | some capacity =>
    simp only [fits, decide_eq_false_iff_not, Nat.not_le] at hfull
    exact List.take_append_of_le_length (Nat.le_of_lt hfull)

theorem cutTo_prefix_cutTo_append (capacity? : Option Nat) (octets more : Octets) :
    cutTo capacity? octets <+: cutTo capacity? (octets ++ more) := by
  cases capacity? with
  | none => exact List.prefix_append octets more
  | some capacity => exact List.IsPrefix.take (List.prefix_append octets more) capacity

/-- What is lost of some octets leaves no room for more. -/
theorem cutTo_cutTo_append (capacity? : Option Nat) (octets more : Octets) :
    cutTo capacity? (cutTo capacity? octets ++ more) = cutTo capacity? (octets ++ more) := by
  cases capacity? with
  | none => rfl
  | some capacity =>
    have hroom : capacity - min capacity octets.length = capacity - octets.length := by omega
    simp [cutTo, List.take_append, List.take_take, hroom]

theorem fits_cutTo_append (octets : Octets) {more : Octets} (hne : more ≠ []) :
    fits capacity? (cutTo capacity? octets ++ more) = fits capacity? (octets ++ more) := by
  cases capacity? with
  | none => rfl
  | some capacity =>
    have hpos := List.length_pos_iff.mpr hne
    simp only [fits, cutTo, List.length_append, List.length_take, decide_eq_decide]
    omega

end Log

namespace Reporter

/-- A reporter whose log was given some octets and holds as many of them as fit. -/
def given (capacity? : Option Nat) (octets : Octets) (hadError : Bool) : Reporter :=
  ⟨⟨Log.cutTo capacity? octets, capacity?⟩, hadError⟩

/-- A reporter over a log without a bound. -/
def unbounded (octets : Octets) (hadError : Bool) : Reporter :=
  ⟨⟨octets, none⟩, hadError⟩

theorem given_none (octets : Octets) (hadError : Bool) :
    given none octets hadError = unbounded octets hadError :=
  rfl

theorem fresh_eq_given (capacity? : Option Nat) : fresh capacity? = given capacity? [] false := by
  cases capacity? with
  | none => rfl
  | some capacity => simp [fresh, given, Log.empty, Log.cutTo]

end Reporter

namespace Reporting

open Reporter

/-! ### Reports -/

theorem runWith_get (reporter : Reporter) : runWith get reporter = (.ok reporter, reporter) :=
  rfl

theorem forM_report_cons (diagnostic : Diagnostic) (rest : List Diagnostic) :
    (diagnostic :: rest).forM report = report diagnostic >>= fun _ ↦ rest.forM report :=
  rfl

theorem forM_report_concat (diagnostics : List Diagnostic) (last : Diagnostic) :
    (diagnostics ++ [last]).forM report = diagnostics.forM report >>= fun _ ↦ report last := by
  simp only [List.forM_eq_forM, List.forM_append, List.forM_cons, List.forM_nil, bind_pure_unit]

theorem hadError_runWith_forM_report (diagnostics : List Diagnostic) (reporter : Reporter) :
    (runWith (diagnostics.forM report) reporter).2.hadError =
      (reporter.hadError || !diagnostics.isEmpty) := by
  induction diagnostics generalizing reporter with
  | nil => exact (Bool.or_false _).symm
  | cons diagnostic rest ih =>
    rw [forM_report_cons, runWith_bind, runWith_report]
    split
    case h_1 after hreport =>
      have hafter : after.hadError = true :=
        (congrArg Reporter.hadError (Prod.mk.inj hreport).2).symm
      rw [ih, hafter]
      simp
    case h_2 full after hreport =>
      have hafter : after.hadError = true :=
        (congrArg Reporter.hadError (Prod.mk.inj hreport).2).symm
      rw [hafter]
      simp

/-- The line of a diagnostic is added to what the log was given. -/
theorem runWith_report_given (diagnostic : Diagnostic) (capacity? : Option Nat) (octets : Octets)
    (hadError : Bool) :
    runWith (report diagnostic) (given capacity? octets hadError) =
      (if Log.fits capacity? (octets ++ Octets.ofReports [diagnostic]) then .ok ()
          else .error .logFull,
        given capacity? (octets ++ Octets.ofReports [diagnostic]) true) := by
  have hline : Octets.ofText (diagnostic.text ++ "\n") = Octets.ofReports [diagnostic] :=
    (List.append_nil _).symm
  have hne : Octets.ofReports [diagnostic] ≠ [] := Octets.ofReports_ne_nil (by simp)
  rw [runWith_report]
  simp only [given, Log.hasRoomFor, Log.append, hline, Log.cutTo_cutTo_append,
    Log.fits_cutTo_append octets hne]

/-- The log holds what fits of all that is reported, also if the reports stop where it is full. -/
theorem runWith_forM_report_given (diagnostics : List Diagnostic) (capacity? : Option Nat)
    (octets : Octets) (hadError : Bool) :
    runWith (diagnostics.forM report) (given capacity? octets hadError) =
      (if diagnostics.isEmpty || Log.fits capacity? (octets ++ Octets.ofReports diagnostics) then
          .ok () else .error .logFull,
        given capacity? (octets ++ Octets.ofReports diagnostics)
          (hadError || !diagnostics.isEmpty)) := by
  induction diagnostics generalizing octets hadError with
  | nil =>
    rw [Octets.ofReports, List.flatMap_nil, List.append_nil, List.isEmpty_nil, Bool.not_true,
      Bool.or_false]
    rfl
  | cons diagnostic rest ih =>
    have happend : octets ++ Octets.ofReports (diagnostic :: rest) =
        octets ++ Octets.ofReports [diagnostic] ++ Octets.ofReports rest := by
      rw [List.append_assoc, ← Octets.ofReports_append, List.singleton_append]
    rw [forM_report_cons, runWith_bind, runWith_report_given, happend]
    generalize octets ++ Octets.ofReports [diagnostic] = reported
    cases hfits : Log.fits capacity? reported with
    | true =>
      simp only [if_true, ih]
      cases rest with
      | nil => simp [Octets.ofReports, hfits]
      | cons next later => simp
    | false =>
      have hmore : Log.fits capacity? (reported ++ Octets.ofReports rest) = false := by
        rw [← Bool.not_eq_true]
        exact fun hmore ↦ by simp [Log.fits_of_append hmore] at hfits
      simp [hmore, given, Log.cutTo_append_of_fits_eq_false hfits]

/-- A value behind reports is given exactly if the log takes them all. -/
theorem runWith_reports_given (diagnostics : List Diagnostic) (value? : Option Value)
    (capacity? : Option Nat) (octets : Octets) (hadError : Bool) :
    runWith (do diagnostics.forM report; return value?) (given capacity? octets hadError) =
      (if diagnostics.isEmpty || Log.fits capacity? (octets ++ Octets.ofReports diagnostics) then
          .ok value? else .error .logFull,
        given capacity? (octets ++ Octets.ofReports diagnostics)
          (hadError || !diagnostics.isEmpty)) := by
  rw [runWith_bind, runWith_forM_report_given]
  cases diagnostics.isEmpty || Log.fits capacity? (octets ++ Octets.ofReports diagnostics) <;> rfl

/-! ### Runs -/

/-- A run reports the diagnostics of its verdict in their order and gives the value of its
verdict. -/
theorem runWith_run_eq_report (source : String) (reporter : Reporter) :
    runWith (run source) reporter =
      runWith
        (do
          (verdict reporter.hadError source).reports.forM report
          return (verdict reporter.hadError source).value?)
        reporter := by
  have hremembered := hadError_runWith_forM_report (scan source).errors reporter
  unfold run verdict
  simp only [runWith_bind]
  cases (Parser.ofTokens (scan source).tokens).parse.1 with
  | error fault =>
    simp only [forM_report_concat, runWith_bind]
    cases runWith ((scan source).errors.forM report) reporter with
    | mk result after => cases result <;> rfl
  | ok expression =>
    simp only [runWith_bind, runWith_get]
    cases hflag : reporter.hadError || !(scan source).errors.isEmpty with
    | true =>
      rw [hflag] at hremembered
      rw [if_pos rfl]
      cases hreports : runWith ((scan source).errors.forM report) reporter with
      | mk result after =>
        rw [hreports] at hremembered
        cases result with
        | error full => rfl
        | ok _ => simp [show after.hadError = true from hremembered]
    | false =>
      obtain ⟨hclear, herrors⟩ := Bool.or_eq_false_iff.mp hflag
      have hnil : (scan source).errors = [] := by simpa using herrors
      have hnone : runWith (([] : List Diagnostic).forM report) reporter = (.ok (), reporter) := rfl
      rw [if_neg Bool.false_ne_true, hnil, hnone]
      simp only [hclear, Bool.false_eq_true, if_false]
      cases expression.evaluate with
      | ok value => rfl
      | error fault =>
        simp only [List.nil_append, forM_report_cons, runWith_bind]
        cases runWith (report fault) reporter with
        | mk result after => cases result <;> rfl

/-- Over a log without a bound a run does what its verdict says. -/
theorem runWith_run (source : String) (octets : Octets) (hadError : Bool) :
    runWith (run source) (unbounded octets hadError) =
      (.ok (verdict hadError source).value?,
        unbounded (octets ++ Octets.ofReports (verdict hadError source).reports)
          (hadError || !(verdict hadError source).reports.isEmpty)) := by
  have hfits (octets : Octets) : Log.fits none octets = true := rfl
  rw [runWith_run_eq_report, ← given_none, runWith_reports_given, hfits, Bool.or_true, if_pos rfl]
  rfl

theorem runWith_run_fresh (source : String) :
    runWith (run source) (fresh none) =
      (.ok (verdict false source).value?,
        unbounded (Octets.ofReports (verdict false source).reports)
          !(verdict false source).reports.isEmpty) :=
  runWith_run source [] false

/-- A value that a run gives is that of its verdict, whatever became of the reports. -/
theorem value?_of_runWith_run {source : String} {reporter : Reporter} {value : Value}
    (hrun : (runWith (run source) reporter).1 = .ok (some value)) :
    (verdict reporter.hadError source).value? = some value := by
  rw [runWith_run_eq_report, runWith_bind] at hrun
  cases hreports : runWith ((verdict reporter.hadError source).reports.forM report) reporter with
  | mk result after =>
    rw [hreports] at hrun
    cases result with
    | error full => cases hrun
    | ok _ => exact Except.ok.inj hrun

end Reporting

/-- The value of a verdict is that of the tree. -/
theorem exists_evaluate_of_value? {hadError : Bool} {source : String} {value : Value}
    (hvalue : (verdict hadError source).value? = some value) :
    ∃ expression, (Parser.ofTokens (scan source).tokens).parse.1 = .ok expression ∧
      expression.evaluate = .ok value := by
  simp only [verdict] at hvalue
  split at hvalue
  case h_1 => cases hvalue
  case h_2 expression hparse =>
    split at hvalue
    case isTrue => cases hvalue
    case isFalse =>
      split at hvalue
      case h_1 result hevaluate =>
        cases hvalue
        exact ⟨expression, hparse, hevaluate⟩
      case h_2 => cases hvalue

end Lox
