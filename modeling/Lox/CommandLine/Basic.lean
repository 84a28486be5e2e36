import Lox.Session
import Lox.Text

/-!
# The command line

What the program does with its arguments, as a function of the files it may read and of its
standard input. Without arguments it is a prompt, which runs each line of the input on its own;
with one argument it runs the script that the argument names. How a program ends on an error that it
cannot handle is a parameter (`Abort`).
-/

set_option autoImplicit false
set_option relaxedAutoImplicit false

namespace Lox.CommandLine

/-! ### Outcomes -/

inductive ExitStatus
  | success
  | usage
  | badData
  | noInput
  /-- An error that was not handled ended the program with this code. -/
  | aborted (code : Nat)
deriving DecidableEq

def ExitStatus.code : ExitStatus → Nat
  | success => 0
  | usage => 64
  | badData => 65
  | noInput => 66
  | aborted code => code

/-- What is written when an error ends the program that it does not handle, and the code that it
ends with. -/
structure Abort where
  octets : Octets
  code : Nat

/-- The usual end, for an error with the given text: that is written as a line behind the name of
the program. -/
def Abort.usual (reason : String) : Abort :=
  ⟨Octets.ofText ("loxpr: " ++ reason ++ "\n"), 1⟩

/-- What was written to the two output streams, and how the program ended. -/
structure Transcript where
  stdout : Octets
  stderr : Octets
  status : ExitStatus

/-- Why a file cannot be read as a text. -/
inductive FileFault
  /-- The system does not give its octets, for the reason with this name and number. -/
  | system (reason : String) (number : Nat)
  | invalidText

namespace FileFault

def notFound : FileFault :=
  system "No such file or directory" 2

def notDirectory : FileFault :=
  system "Not a directory" 20

def isDirectory : FileFault :=
  system "Is a directory" 21

/-- The number by which the system knows a fault. -/
def number? : FileFault → Option Nat
  | system _ number => some number
  | invalidText => none

def text : FileFault → String
  | system reason number => reason ++ " (os error " ++ toString number ++ ")"
  | invalidText => "stream did not contain valid UTF-8"

end FileFault

/-! ### Scripts -/

/-- Runs a source text as a whole program. -/
def runScript (source : String) : Transcript :=
  let (result, reporter) := (run source).runWith (Reporter.fresh none)
  match result with
  | .ok (some value) =>
    ⟨Octets.ofText (value.text ++ "\n"), reporter.log.octets, .success⟩
  | _ => ⟨[], reporter.log.octets, .badData⟩

def unreadable (path : String) (fault : FileFault) : Transcript :=
  ⟨[], Octets.ofText ("Error reading file '" ++ path ++ "': " ++ fault.text ++ "\n"), .noInput⟩

/-- Runs the script with the given path and content. -/
def runFile (path : String) (content : Except FileFault Octets) : Transcript :=
  match content with
  | .error fault => unreadable path fault
  | .ok octets =>
    match octets.text? with
    | none => unreadable path .invalidText
    | some source => runScript source

/-! ### The prompt -/

/-- What is written before each line is read. -/
def promptMark : String := "> "

/-- What is written when the input ends. -/
def promptEnd : String := "\n"

/-- What a prompt does with a line. -/
inductive PromptStep
  /-- It shows this text and goes on to the next line with this reporter. -/
  | next (shown : String) (reporter : Reporter)
  /-- It ends, as the line asks it to. -/
  | leave
  /-- It is ended by an error with this text, since the line is no text. -/
  | fail (reason : String)

/-- Runs a line without the blanks at its ends. A reporter forgets what was wrong with a line. -/
def promptStep (reporter : Reporter) (line : Octets) : PromptStep :=
  match line.text? with
  | none => .fail FileFault.invalidText.text
  | some text =>
    let source := String.ofList (Text.trim text.toList)
    if source = "exit" ∨ source = "quit" then .leave
    else
      let (result, after) := (run source).runWith reporter
      match result with
      | .ok (some value) => .next (value.text ++ "\n") after.reset
      | _ => .next "" after.reset

/-- The prompt from some line on, where the reporter has been used for the lines before. -/
def promptFrom (abort : String → Abort) (reporter : Reporter) : List Octets → Transcript
  | [] => ⟨Octets.ofText (promptMark ++ promptEnd), reporter.log.octets, .success⟩
  | line :: rest =>
    match promptStep reporter line with
    | .next shown after =>
      let later := promptFrom abort after rest
      { later with stdout := Octets.ofText (promptMark ++ shown) ++ later.stdout }
    | .leave => ⟨Octets.ofText promptMark, reporter.log.octets, .success⟩
    | .fail reason =>
      ⟨Octets.ofText promptMark, reporter.log.octets ++ (abort reason).octets,
        .aborted (abort reason).code⟩

def prompt (abort : String → Abort) (input : Octets) : Transcript :=
  promptFrom abort (Reporter.fresh none) input.lines

/-! ### The program -/

def usage : Transcript :=
  ⟨[], Octets.ofText "Usage: loxpr [script]\n", .usage⟩

/-- What the program does with its arguments, where `abort` ends it on errors with given texts. -/
def respondWith (abort : String → Abort) (files : String → Except FileFault Octets)
    (input : Octets) : List String → Transcript
  | [] => prompt abort input
  | [path] => runFile path (files path)
  | _ => usage

def respond (files : String → Except FileFault Octets) (input : Octets) :
    List String → Transcript :=
  respondWith Abort.usual files input

end Lox.CommandLine
