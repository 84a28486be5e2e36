import Lox.CommandLine.Basic

/-!
# The program

Reads files and lines and writes what the command line answers. Lines are answered as they come.
-/

set_option autoImplicit false
set_option relaxedAutoImplicit false

namespace Lox.CommandLine

/-- The number of a system error. Some calls give it with a minus sign. -/
def errorNumber (code : UInt32) : Nat :=
  code.toInt32.toInt.natAbs

/-- The fault with the number of a system error. -/
def FileFault.ofCode (code : UInt32) (reason : String) : FileFault :=
  [notFound, notDirectory, isDirectory].find? (·.number? = some (errorNumber code))
    |>.getD (.system reason (errorNumber code))

def FileFault.ofError : IO.Error → FileFault
  | .noFileOrDirectory _ code reason => .ofCode code reason
  | .inappropriateType _ code reason => .ofCode code reason
  | .permissionDenied _ code reason => .ofCode code reason
  | .invalidArgument _ code reason => .ofCode code reason
  | .otherError code reason => .ofCode code reason
  | error => .system (toString error) 0

def readFile (path : String) : IO (Except FileFault Octets) := do
  try
    return .ok (← IO.FS.readBinFile path).data.toList
  catch error =>
    return .error (FileFault.ofError error)

def writeOctets (stream : IO.FS.Stream) (octets : Octets) : IO Unit := do
  stream.write ⟨octets.toArray⟩
  stream.flush

/-- Reads up to the next newline, which is left out; nothing if the input has ended. -/
partial def readLine (stream : IO.FS.Stream) (line : Array UInt8) : IO (Option Octets) := do
  let read ← stream.read 1
  match read.data.toList with
  | [] => return if line.isEmpty then none else some line.toList
  | octet :: _ =>
    if octet = '\n'.toUInt8 then return some line.toList
    else readLine stream (line.push octet)

partial def converse (reporter : Reporter) : IO ExitStatus := do
  let stdout ← IO.getStdout
  let stderr ← IO.getStderr
  writeOctets stdout (Octets.ofText promptMark)
  match ← readLine (← IO.getStdin) #[] with
  | none =>
    writeOctets stdout (Octets.ofText promptEnd)
    return .success
  | some line =>
    match promptStep reporter line with
    | .next shown after =>
      writeOctets stderr (after.log.octets.drop reporter.log.octets.length)
      writeOctets stdout (Octets.ofText shown)
      converse after
    | .leave => return .success
    | .fail reason =>
      let abort := Abort.usual reason
      writeOctets stderr abort.octets
      return .aborted abort.code

def writeTranscript (transcript : Transcript) : IO ExitStatus := do
  writeOctets (← IO.getStdout) transcript.stdout
  writeOctets (← IO.getStderr) transcript.stderr
  return transcript.status

end Lox.CommandLine

open Lox.CommandLine in
def main (arguments : List String) : IO UInt32 := do
  let status ←
    match arguments with
    | [] => converse (Lox.Reporter.fresh none)
    | [path] => writeTranscript (runFile path (← readFile path))
    | _ => writeTranscript usage
  return UInt32.ofNat status.code
