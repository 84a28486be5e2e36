import Lox.Main
import Lox.Number.Patterns
import Lox.Proofs.Grammar
import Lox.Proofs.Reading.Steps
import Lox.Proofs.Reading.Completeness
import Lox.Proofs.Reading.Soundness
import Lox.Proofs.Cursor
import Lox.Proofs.Parsing
import Lox.Proofs.Calls
import Lox.Proofs.Recovery
import Lox.Proofs.Places
import Lox.Proofs.Lexing.Classes
import Lox.Proofs.Lexing.Cuts
import Lox.Proofs.Lexing.MaximalMunch
import Lox.Proofs.Lexing.Origin
import Lox.Proofs.Lexing.Tiling
import Lox.Proofs.Lexing.Separation
import Lox.Proofs.Lexing.Joining
import Lox.Proofs.Lexing.Alone
import Lox.Proofs.Lexing.Modes
import Lox.Proofs.Lexing.Lexemes
import Lox.Proofs.Lines
import Lox.Proofs.Verdict
import Lox.Proofs.Blame
import Lox.Proofs.Provenance
import Lox.Proofs.Script
import Lox.Proofs.ReportLines
import Lox.Proofs.Analysis
import Lox.Proofs.StackMachine
import Lox.Proofs.Session.Requests
import Lox.Proofs.Session.Capacity
import Lox.Proofs.Session.History
import Lox.Proofs.Relocation
import Lox.Proofs.Reading.Relocation
import Lox.Proofs.Composition
import Lox.Proofs.Layout
import Lox.Proofs.Remainder
import Lox.Proofs.Writing
import Lox.Proofs.Results
import Lox.Proofs.Readability
import Lox.Proofs.Lexing.Trimming
import Lox.Proofs.Prompt
import Lox.Proofs.OneLine
