import Lox.Expr.Evaluation
import Lox.Expr.Parser
import Lox.Scan
import Lox.Text

/-!
# Runs and sessions

A reporter writes each diagnostic as one line to a log and remembers that it was given one. The log
may have a capacity; what does not fit is lost, and the writer is told so. The reporter remembers
a diagnostic even if its line is lost.

A run scans a source text, parses one expression and evaluates it, and reports what goes wrong on
the way. A session answers requests one after the other with one reporter.
-/

set_option autoImplicit false
set_option relaxedAutoImplicit false

namespace Lox

/-! ### Reporting diagnostics -/

/-- What has been written, and how many octets fit in all, if there is a bound. -/
structure Log where
  octets : Octets
  capacity? : Option Nat

/-- A log had no room for all that was written to it. -/
inductive LogFull
  | logFull
deriving DecidableEq

namespace Log

def empty (capacity? : Option Nat) : Log :=
  ⟨[], capacity?⟩

/-- Whether a log holds no more than fits. -/
def fits (capacity? : Option Nat) (octets : Octets) : Bool :=
  match capacity? with
  | none => true
  | some capacity => decide (octets.length ≤ capacity)

/-- As many of the octets as fit. -/
def cutTo (capacity? : Option Nat) (octets : Octets) : Octets :=
  match capacity? with
  | none => octets
  | some capacity => octets.take capacity

def append (log : Log) (text : String) : Log :=
  { log with octets := cutTo log.capacity? (log.octets ++ Octets.ofText text) }

/-- Whether all of a text could be written. -/
def hasRoomFor (log : Log) (text : String) : Bool :=
  fits log.capacity? (log.octets ++ Octets.ofText text)

end Log

structure Reporter where
  log : Log
  /-- Whether a diagnostic was reported since the latest reset. -/
  hadError : Bool

namespace Reporter

/-- A reporter that has reported nothing yet. -/
def fresh (capacity? : Option Nat) : Reporter :=
  ⟨Log.empty capacity?, false⟩

/-- Forgets that diagnostics were reported. The log stays. -/
def reset (reporter : Reporter) : Reporter :=
  { reporter with hadError := false }

end Reporter

/-- What is done with a reporter at hand. The reporter outlives a full log. -/
abbrev Reporting := ExceptT LogFull (StateM Reporter)

namespace Reporting

/-- Does something with the given reporter. -/
def runWith {α : Type} (action : Reporting α) (reporter : Reporter) :
    Except LogFull α × Reporter :=
  action.run.run reporter

/-- Writes the line of a diagnostic. -/
def report (diagnostic : Diagnostic) : Reporting Unit := do
  let line := diagnostic.text ++ "\n"
  let log := (← get).log
  set (Reporter.mk (log.append line) true)
  unless log.hasRoomFor line do
    throw .logFull

def reset : Reporting Unit :=
  modify Reporter.reset

/-! ### What is done step by step -/

theorem runWith_bind {α β : Type} (first : Reporting α) (next : α → Reporting β)
    (reporter : Reporter) :
    runWith (first >>= next) reporter =
      match runWith first reporter with
      | (.ok value, after) => runWith (next value) after
      | (.error full, after) => (.error full, after) := by
  simp only [runWith, ExceptT.run_bind, StateT.run_bind]
  cases hfirst : StateT.run (ExceptT.run first) reporter with
  | mk result after => cases result <;> rfl

theorem runWith_report (diagnostic : Diagnostic) (reporter : Reporter) :
    runWith (report diagnostic) reporter =
      (if reporter.log.hasRoomFor (diagnostic.text ++ "\n") then .ok () else .error .logFull,
        ⟨reporter.log.append (diagnostic.text ++ "\n"), true⟩) := by
  have hset : runWith (report diagnostic) reporter =
      runWith
        (if reporter.log.hasRoomFor (diagnostic.text ++ "\n") then pure () else throw .logFull)
        ⟨reporter.log.append (diagnostic.text ++ "\n"), true⟩ := rfl
  rw [hset]
  split <;> rfl

end Reporting

open Reporting

/-! ### Running source texts -/

/-- The value of a source text, or nothing if anything was reported. The parse goes on in spite of
lexical errors; nothing is evaluated once the reporter was given a diagnostic, be it by an earlier
run. What follows the expression is ignored. -/
def run (source : String) : Reporting (Option Value) := do
  let scanned := scan source
  scanned.errors.forM report
  match (Parser.ofTokens scanned.tokens).parse.1 with
  | .error fault =>
    report fault
    return none
  | .ok expression =>
    if (← get).hadError then
      return none
    match expression.evaluate with
    | .ok value => return some value
    | .error fault =>
      report fault
      return none

/-- What can be asked of a session. -/
inductive Request
  | run (source : String)
  | report (diagnostic : Diagnostic)
  | reset

/-- Does what is asked. Only a run gives a value. -/
def Request.perform : Request → Reporting (Option Value)
  | run source => Lox.run source
  | report diagnostic => do
    Reporting.report diagnostic
    return none
  | reset => do
    Reporting.reset
    return none

/-- What a request gives, what was written on account of it, and whether the reporter remembers a
diagnostic afterwards. -/
structure Answer where
  result : Except LogFull (Option Value)
  written : Octets
  hadError : Bool

/-- Answers a request. -/
def Request.answer (request : Request) (reporter : Reporter) : Answer × Reporter :=
  let (result, after) := request.perform.runWith reporter
  (⟨result, after.log.octets.drop reporter.log.octets.length, after.hadError⟩, after)

/-- Answers requests in their order. -/
def session (reporter : Reporter) : List Request → List Answer × Reporter
  | [] => ([], reporter)
  | request :: rest =>
    let (answer, after) := request.answer reporter
    let (answers, last) := session after rest
    (answer :: answers, last)

end Lox
