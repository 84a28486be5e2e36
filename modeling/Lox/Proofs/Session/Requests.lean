import Lox.Proofs.Verdict

/-!
# What requests come to

`Request.verdict` says what a request reports and gives, and `Request.remembers` what the reporter
remembers afterwards; both are functions of the request and of what was remembered before. With any
capacity of the log, that is all that a request does (`answer_given`): the log is given the lines of
the reports, and the request ends early exactly if these do not fit. So what the requests of a
session write and remember does not depend on the capacity but for what is lost
(`session_given`).
-/

set_option autoImplicit false
set_option relaxedAutoImplicit false

namespace Lox

open Reporter Reporting

theorem Octets.ofReports_eq_nil_iff {reports : List Diagnostic} :
    ofReports reports = [] ↔ reports = [] := by
  refine ⟨fun hnil ↦ ?_, fun hnil ↦ hnil ▸ rfl⟩
  by_contra hne
  exact ofReports_ne_nil hne hnil

namespace Request

/-! ### One request -/

/-- What a request reports and gives, given whether a diagnostic is remembered. -/
def verdict (hadError : Bool) : Request → Verdict
  | run source => Lox.verdict hadError source
  | report diagnostic => ⟨[diagnostic], none⟩
  | reset => ⟨[], none⟩

/-- Whether a diagnostic is remembered after a request, given whether one was before. -/
def remembers (hadError : Bool) : Request → Bool
  | run source => hadError || !(Lox.verdict hadError source).reports.isEmpty
  | report _ => true
  | reset => false

/-- The octets that a request adds to those that a log is given. -/
def octets (hadError : Bool) (request : Request) : Octets :=
  .ofReports (request.verdict hadError).reports

theorem octets_eq_nil_iff {hadError : Bool} {request : Request} :
    request.octets hadError = [] ↔ (request.verdict hadError).reports = [] :=
  Octets.ofReports_eq_nil_iff

theorem remembers_iff {hadError : Bool} {request : Request} :
    request.remembers hadError = true ↔
      request.octets hadError ≠ [] ∨ request ≠ .reset ∧ hadError = true := by
  rw [ne_eq, octets_eq_nil_iff]
  cases request with
  | run source => simp [remembers, verdict, or_comm]
  | report diagnostic => simp [remembers, verdict]
  | reset => simp [remembers, verdict]

theorem runWith_perform_given (request : Request) (capacity? : Option Nat) (octets : Octets)
    (hadError : Bool) :
    runWith request.perform (given capacity? octets hadError) =
      (if (request.verdict hadError).reports.isEmpty ||
          Log.fits capacity? (octets ++ request.octets hadError) then
        .ok (request.verdict hadError).value? else .error .logFull,
        given capacity? (octets ++ request.octets hadError) (request.remembers hadError)) := by
  cases request with
  | run source =>
    change runWith (Lox.run source) (given capacity? octets hadError) = _
    rw [runWith_run_eq_report, runWith_reports_given]
    rfl
  | report diagnostic =>
    have hperform : (report diagnostic).perform =
        do [diagnostic].forM Reporting.report; return none := by
      simp [perform, forM_report_cons]
    rw [hperform, runWith_reports_given, List.isEmpty_cons, Bool.not_false, Bool.or_true]
    rfl
  | reset =>
    change (Except.ok none, given capacity? octets false) = _
    rw [octets_eq_nil_iff.mpr rfl, List.append_nil]
    rfl

/-- What a request answers with a log that was given some octets before. -/
def answerAt (capacity? : Option Nat) (octets : Octets) (hadError : Bool) (request : Request) :
    Answer where
  result :=
    if (request.verdict hadError).reports.isEmpty ||
        Log.fits capacity? (octets ++ request.octets hadError) then
      .ok (request.verdict hadError).value? else .error .logFull
  written :=
    (Log.cutTo capacity? (octets ++ request.octets hadError)).drop
      (Log.cutTo capacity? octets).length
  hadError := request.remembers hadError

theorem answer_given (request : Request) (capacity? : Option Nat) (octets : Octets)
    (hadError : Bool) :
    request.answer (given capacity? octets hadError) =
      (request.answerAt capacity? octets hadError,
        given capacity? (octets ++ request.octets hadError) (request.remembers hadError)) := by
  unfold answer
  rw [runWith_perform_given]
  rfl

/-- With a log without a bound, a request answers the value of its verdict and writes all that it
reports. -/
theorem answerAt_none (request : Request) (octets : Octets) (hadError : Bool) :
    request.answerAt none octets hadError =
      ⟨.ok (request.verdict hadError).value?, request.octets hadError,
        request.remembers hadError⟩ := by
  have hfits (octets : Octets) : Log.fits none octets = true := rfl
  have hwritten : (octets ++ request.octets hadError).drop octets.length =
      request.octets hadError := List.drop_left
  rw [answerAt, hfits, Bool.or_true, if_pos rfl]
  simp only [Log.cutTo, hwritten]

theorem cutTo_append_written (capacity? : Option Nat) (octets : Octets) (hadError : Bool)
    (request : Request) :
    Log.cutTo capacity? octets ++ (request.answerAt capacity? octets hadError).written =
      Log.cutTo capacity? (octets ++ request.octets hadError) :=
  (List.prefix_iff_eq_append.mp (Log.cutTo_prefix_cutTo_append capacity? octets _)).symm ▸ rfl

end Request

/-! ### Sessions -/

/-- The octets that the requests of a session add to those that a log is given. -/
def octetsOf (hadError : Bool) : List Request → Octets
  | [] => []
  | request :: rest => request.octets hadError ++ octetsOf (request.remembers hadError) rest

theorem octetsOf_append (hadError : Bool) (first second : List Request) :
    octetsOf hadError (first ++ second) =
      octetsOf hadError first ++ octetsOf (first.foldl Request.remembers hadError) second := by
  induction first generalizing hadError with
  | nil => rfl
  | cons request rest ih =>
    rw [List.cons_append, octetsOf, octetsOf, ih, List.append_assoc, List.foldl_cons]

theorem session_cons (reporter : Reporter) (request : Request) (rest : List Request) :
    session reporter (request :: rest) =
      ((request.answer reporter).1 :: (session (request.answer reporter).2 rest).1,
        (session (request.answer reporter).2 rest).2) :=
  rfl

theorem length_session (reporter : Reporter) (requests : List Request) :
    (session reporter requests).1.length = requests.length := by
  induction requests generalizing reporter with
  | nil => rfl
  | cons request rest ih => rw [session_cons, List.length_cons, List.length_cons, ih]

/-- The first answers of a session are those of a session with the first requests. -/
theorem take_session (reporter : Reporter) (requests : List Request) (count : Nat) :
    (session reporter requests).1.take count = (session reporter (requests.take count)).1 := by
  induction requests generalizing reporter count with
  | nil => rw [List.take_nil]; exact List.take_nil
  | cons request rest ih =>
    cases count with
    | zero => rfl
    | succ count => rw [session_cons, List.take_succ_cons, ih, List.take_succ_cons, session_cons]

theorem session_given (capacity? : Option Nat) (octets : Octets) (hadError : Bool)
    (requests : List Request) :
    (session (given capacity? octets hadError) requests).2 =
      given capacity? (octets ++ octetsOf hadError requests)
        (requests.foldl Request.remembers hadError) := by
  induction requests generalizing octets hadError with
  | nil => rw [octetsOf, List.append_nil]; rfl
  | cons request rest ih =>
    rw [session_cons, Request.answer_given, ih, List.append_assoc]
    rfl

/-- The answer to each request is determined by what was given to the log before and by what is
remembered. -/
theorem getElem?_session_given (capacity? : Option Nat) (octets : Octets) (hadError : Bool)
    (requests : List Request) (index : Nat) :
    (session (given capacity? octets hadError) requests).1[index]? =
      requests[index]?.map (Request.answerAt capacity?
        (octets ++ octetsOf hadError (requests.take index))
        ((requests.take index).foldl Request.remembers hadError)) := by
  induction requests generalizing octets hadError index with
  | nil => rfl
  | cons request rest ih =>
    rw [session_cons, Request.answer_given]
    cases index with
    | zero => simp [octetsOf]
    | succ index =>
      rw [List.getElem?_cons_succ, List.getElem?_cons_succ, List.take_succ_cons, octetsOf,
        List.foldl_cons, ih, List.append_assoc]

/-- What is written in a session is what fits of what the log is given. -/
theorem cutTo_append_flatMap_written (capacity? : Option Nat) (octets : Octets) (hadError : Bool)
    (requests : List Request) :
    Log.cutTo capacity? octets ++
        (session (given capacity? octets hadError) requests).1.flatMap Answer.written =
      Log.cutTo capacity? (octets ++ octetsOf hadError requests) := by
  induction requests generalizing octets hadError with
  | nil => simp [session, octetsOf]
  | cons request rest ih =>
    rw [session_cons, Request.answer_given, List.flatMap_cons, ← List.append_assoc,
      Request.cutTo_append_written, ih, octetsOf, List.append_assoc]

end Lox
