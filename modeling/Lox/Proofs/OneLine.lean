import Lox.Proofs.Lexing.Trimming
import Lox.Proofs.Prompt
import Lox.Proofs.Script

/-!
# A line as a script

The prompt runs a line without the blanks at its ends, and a script is run as it is. For a line
whose white space at the ends is plain that makes no difference, since both have the same scan and a
run depends on nothing but the scan (`run_eq_of_scan_eq`). So the line shows and complains of the
same things at the prompt and as the content of a file (`prompt_line_agrees_with_script`).
-/

set_option autoImplicit false
set_option relaxedAutoImplicit false

namespace Lox

open Reporting

/-- Source texts with the same scan are run in the same way. -/
theorem run_eq_of_scan_eq {source other : String} (hscan : scan source = scan other) :
    run source = run other := by
  rw [run, run, hscan]

namespace CommandLine

variable {source : String}

theorem shown_eq_of_scan_eq {other : String} (hscan : scan source = scan other) :
    shown source = shown other := by
  rw [shown, shown, run_eq_of_scan_eq hscan]

theorem written_eq_of_scan_eq {other : String} (hscan : scan source = scan other) :
    written source = written other := by
  rw [written, written, run_eq_of_scan_eq hscan]

/-! ### Scripts -/

/-- A script shows and writes what a fresh run shows and writes. -/
theorem runScript_eq_shown (source : String) :
    (runScript source).stdout = Octets.ofText (shown source) ∧
      (runScript source).stderr = written source ∧
      ((runScript source).status.code = 0 ↔
        ∃ value : Value, shown source = value.text ++ "\n") := by
  rw [runScript_eq, written_eq_ofReports, shown, runWith_run_fresh]
  cases (verdict false source).value? with
  | some value => exact ⟨rfl, rfl, iff_of_true rfl ⟨value, rfl⟩⟩
  | none =>
    have hcode : ExitStatus.badData.code ≠ 0 := by decide
    refine ⟨rfl, rfl, iff_of_false hcode ?_⟩
    rintro ⟨value, htext⟩
    simpa using congrArg String.toList htext

/-! ### Lines -/

theorem sourceOf?_ofText (source : String) :
    sourceOf? (Octets.ofText source) = some (String.ofList (Text.trim source.toList)) := by
  rw [sourceOf?, Octets.text?_ofText]
  rfl

/-- A line with plain ends is run as it is, at whatever place in a session it comes. -/
theorem promptStep_ofText (hends : Text.HasPlainEnds source.toList)
    (hstay : ¬ AsksToLeave (String.ofList (Text.trim source.toList))) (octets : Octets) :
    promptStep (.unbounded octets false) (Octets.ofText source) =
      .next (shown source) (.unbounded (octets ++ written source) false) := by
  have hscan := scan_trim hends
  rw [promptStep_of_sourceOf? (sourceOf?_ofText source) hstay, shown_eq_of_scan_eq hscan,
    written_eq_of_scan_eq hscan]

theorem lines_ofText_append_newline (hline : '\n' ∉ source.toList) :
    (Octets.ofText (source ++ "\n")).lines = [Octets.ofText source] := by
  rw [Octets.ofText_append_newline,
    Octets.lines_append_newline (mt Octets.newline_mem_ofText_iff.mp hline)]
  rfl

/-- The newline behind the last line may be missing, unless the line is empty. -/
theorem lines_ofText (hline : '\n' ∉ source.toList) (hne : source ≠ "") :
    (Octets.ofText source).lines = [Octets.ofText source] := by
  refine Octets.lines_of_newline_not_mem (fun hnil ↦ hne ?_)
    (mt Octets.newline_mem_ofText_iff.mp hline)
  have htext := Octets.text?_ofText source
  rw [hnil] at htext
  exact (Option.some.inj htext).symm

/-- A line without other white space at its ends than spaces, tabs and carriage returns, unless it
asks to leave, shows the same value at the prompt and as a script, or neither shows one, and writes
the same. The script ends well exactly if a value is shown. This holds for a line that is all of the
input, with or without a newline behind it, and also at any prompt of a longer session. What is
behind it is that trimming the line changes nothing of its scan. -/
theorem prompt_line_agrees_with_script (abort : String → Abort)
    {files : String → Except FileFault Octets} {path : String}
    (hfile : files path = .ok (Octets.ofText source)) (hline : '\n' ∉ source.toList)
    (hends : Text.HasPlainEnds source.toList)
    (hstay : ¬ AsksToLeave (String.ofList (Text.trim source.toList))) (input : Octets) :
    let line := respondWith abort files (Octets.ofText (source ++ "\n")) []
    let script := respondWith abort files input [path]
    line.stdout = Octets.ofText ("> " ++ shown source ++ "> " ++ "\n") ∧
      script.stdout = Octets.ofText (shown source) ∧
      line.stderr = script.stderr ∧
      (script.status.code = 0 ↔ ∃ value : Value, shown source = value.text ++ "\n") ∧
      (source ≠ "" → respondWith abort files (Octets.ofText source) [] = line) ∧
      (∀ octets, promptStep (.unbounded octets false) (Octets.ofText source) =
        .next (shown source) (.unbounded (octets ++ script.stderr) false)) ∧
      scan (String.ofList (Text.trim source.toList)) = scan source := by
  intro line script
  obtain ⟨hstdout, hstderr, hstatus⟩ := runScript_eq_shown source
  have hscript : script = runScript source := respondWith_script abort hfile input
  have hstep := promptStep_ofText hends hstay
  have hlines := lines_ofText_append_newline hline
  have hprompt : line =
      ⟨Octets.ofText ("> " ++ shown source) ++ Octets.ofText ("> " ++ "\n"), written source,
        .success⟩ := by
    change promptFrom abort (.unbounded [] false) (Octets.lines _) = _
    rw [hlines, promptFrom, hstep]
    rfl
  rw [hscript, hprompt, hstderr]
  refine ⟨?_, hstdout, rfl, hstatus, fun hne ↦ ?_, hstep, scan_trim hends⟩
  · rw [← Octets.ofText_append, ← String.append_assoc]
  · rw [← hprompt]
    change promptFrom _ _ (Octets.lines _) = promptFrom _ _ (Octets.lines _)
    rw [lines_ofText hline hne, hlines]

/-- The white space inside the quotes at the end of the line is kept, and that behind the comment is
not missed. -/
theorem prompt_line_agrees_with_script_comment :
    let source := " \t!\" \u00a0\" // c \r"
    let files := fun _ : String ↦ Except.ok (Octets.ofText source)
    '\n' ∉ source.toList ∧ Text.HasPlainEnds source.toList ∧
      ¬ AsksToLeave (String.ofList (Text.trim source.toList)) ∧
      (respond files (Octets.ofText (source ++ "\n")) []).stdout =
        Octets.ofText "> false\n> \n" ∧
      (respond files [] ["line.lox"]).stdout = Octets.ofText "false\n" ∧
      scan (String.ofList (Text.trim source.toList)) = scan source := by
  intro source files
  have hline : '\n' ∉ source.toList := by decide +kernel
  have hleading : source.toList.takeWhile Text.isBlank = [' ', '\t'] := by decide +kernel
  have htrailing : source.toList.rtakeWhile Text.isBlank = [' ', '\r'] := by decide +kernel
  have hends : Text.HasPlainEnds source.toList := by
    constructor
    · simp [hleading, IsInlineBlank]
    · simp [htrailing, IsInlineBlank]
  have hstay : ¬ AsksToLeave (String.ofList (Text.trim source.toList)) := by
    unfold AsksToLeave
    decide +kernel
  have hshown : shown source = "false\n" := by decide +kernel
  obtain ⟨hprompt, hscript, _, _, _, _, hscan⟩ :=
    @prompt_line_agrees_with_script source Abort.usual files "line.lox" rfl hline hends hstay []
  rw [hshown] at hprompt hscript
  exact ⟨hline, hends, hstay, hprompt, hscript, hscan⟩

end CommandLine

end Lox
