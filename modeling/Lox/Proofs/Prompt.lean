import Lox.CommandLine.Basic
import Lox.Proofs.Lines
import Lox.Proofs.Provenance
import Lox.Proofs.ReportLines

/-!
# The prompt as a row of fresh runs

The prompt uses one reporter for all its lines, but it never finds a diagnostic remembered there:
each line is run as if it were the only one (`promptStep_of_sourceOf?`), and what the line shows and
writes depends on nothing but its text. The prompt goes on to the first line that asks it to leave
or is no text, or to the end of its input (`promptFrom_unbounded`). A line without the blanks at its
ends has no newline, so all its diagnostics are on line 1 and take up a line each
(`line_eq_one_of_mem_reports`).
-/

set_option autoImplicit false
set_option relaxedAutoImplicit false

namespace Lox

open Reporting

/-! ### Blanks at the ends -/

namespace Text

theorem trim_append_blank {text : List Char} {character : Char}
    (hblank : isBlank character = true) : trim (text ++ [character]) = trim text := by
  unfold trim
  rw [List.dropWhile_append]
  split
  case isTrue hnil =>
    rw [List.isEmpty_iff.mp hnil]
    simp [hblank]
  case isFalse => simp [hblank]

theorem trim_subset (text : List Char) : trim text ⊆ text := by
  intro character hmem
  rw [trim, List.mem_reverse] at hmem
  have hfront := (List.dropWhile_sublist _).subset hmem
  exact (List.dropWhile_sublist _).subset (List.mem_reverse.mp hfront)

end Text

/-! ### Sources of one line -/

section OneLine

variable {hadError : Bool} {source : String} {diagnostic : Diagnostic}

/-- A diagnostic on a source text of one line is on line 1 and has one line itself. -/
theorem line_eq_one_of_mem_reports (hline : '\n' ∉ source.toList)
    (hmem : diagnostic ∈ (verdict hadError source).reports) :
    diagnostic.line = 1 ∧ '\n' ∉ diagnostic.text.toList := by
  obtain ⟨index, hindex⟩ := List.mem_iff_getElem?.mp hmem
  rw [newline_mem_text_iff_of_mem_reports hmem]
  rcases unterminatedString_or_blames_of_getElem? hindex with ⟨_, rfl⟩ | hblames
  · refine ⟨?_, Diagnostic.not_blamesLongString (by simp)⟩
    rw [Diagnostic.line, lineAfter, List.count_eq_zero_of_not_mem hline]
  · obtain ⟨token, htokens, htoken⟩ := hblames.exists_token
    have hstands := standsIn_of_mem_tokens htokens
    refine ⟨(Diagnostic.line_eq_of_token? htoken).trans (hstands.line_eq_one hline), ?_⟩
    rintro ⟨found, _, rfl, _, hnewline⟩
    cases htoken
    exact hstands.newline_not_mem hline hnewline

end OneLine

namespace CommandLine

/-! ### Lines -/

/-- The source text in a line, which is what the blanks at the ends of the line leave of it, unless
the line is no text. -/
def sourceOf? (line : Octets) : Option String :=
  line.text?.map fun text ↦ String.ofList (Text.trim text.toList)

theorem sourceOf?_append_newline (line : Octets) :
    sourceOf? (line ++ ['\n'.toUInt8]) = sourceOf? line := by
  have hnewline : "\n".toList = ['\n'] := rfl
  rw [sourceOf?, Octets.text?_append_newline, Option.map_map, sourceOf?]
  congr 1
  funext text
  rw [Function.comp_apply, String.toList_append, hnewline, Text.trim_append_blank (by decide)]

/-- What is run does not depend on whether the lines are read with their newlines. -/
theorem map_sourceOf?_lines {input : Octets} {pieces : List Octets}
    (hcut : input.IsCutInto pieces) : input.lines.map sourceOf? = pieces.map sourceOf? := by
  induction hcut with
  | nil => rfl
  | last hne hpiece => rw [Octets.lines_of_newline_not_mem hne hpiece]
  | newline hline _ ih =>
    rw [Octets.lines_append_newline hline, List.map_cons, List.map_cons, ih,
      sourceOf?_append_newline]

theorem newline_not_mem_of_sourceOf? {line : Octets} {source : String}
    (hline : '\n'.toUInt8 ∉ line) (hsource : sourceOf? line = some source) :
    '\n' ∉ source.toList := by
  obtain ⟨text, htext, rfl⟩ := Option.map_eq_some_iff.mp hsource
  rw [Octets.text?_eq_some_iff] at htext
  rw [htext, Octets.newline_mem_ofText_iff] at hline
  rw [String.toList_ofList]
  exact fun hmem ↦ hline (Text.trim_subset _ hmem)

/-! ### Steps -/

/-- What is shown for a source text: the value of a fresh run, if it gives one. -/
def shown (source : String) : String :=
  match (runWith (run source) (.fresh none)).1 with
  | .ok (some value) => value.text ++ "\n"
  | _ => ""

/-- What a fresh run of a source text writes. -/
def written (source : String) : Octets :=
  (runWith (run source) (.fresh none)).2.log.octets

theorem written_eq_ofReports (source : String) :
    written source = Octets.ofReports (verdict false source).reports := by
  rw [written, runWith_run_fresh]
  rfl

/-- A source text that asks the prompt to end. -/
def AsksToLeave (source : String) : Prop :=
  source = "exit" ∨ source = "quit"

/-- The reporter has nothing to remember at any prompt: whatever it has written, a line is run as
with a fresh one, and nothing is remembered afterwards. -/
theorem promptStep_of_sourceOf? {line : Octets} {source : String}
    (hsource : sourceOf? line = some source) (hstay : ¬ AsksToLeave source) (octets : Octets) :
    promptStep (.unbounded octets false) line =
      .next (shown source) (.unbounded (octets ++ written source) false) := by
  obtain ⟨text, htext, rfl⟩ := Option.map_eq_some_iff.mp hsource
  unfold AsksToLeave at hstay
  simp only [promptStep, htext, if_neg hstay, runWith_run, shown, written_eq_ofReports,
    runWith_run_fresh]
  cases (verdict false (String.ofList (Text.trim text.toList))).value? <;> rfl

theorem promptStep_of_asksToLeave {line : Octets} {source : String}
    (hsource : sourceOf? line = some source) (hleave : AsksToLeave source) (reporter : Reporter) :
    promptStep reporter line = .leave := by
  obtain ⟨text, htext, rfl⟩ := Option.map_eq_some_iff.mp hsource
  simp only [promptStep, htext]
  exact if_pos hleave

theorem promptStep_of_sourceOf?_eq_none {line : Octets} (hsource : sourceOf? line = none)
    (reporter : Reporter) :
    promptStep reporter line = .fail "stream did not contain valid UTF-8" := by
  rw [sourceOf?, Option.map_eq_none_iff] at hsource
  rw [promptStep, hsource]
  rfl

/-! ### Stops -/

/-- Why a prompt stops. -/
inductive Stop
  | endOfInput
  | leave
  | invalidText
deriving DecidableEq

namespace Stop

/-- A prompt stops at the first of the lines that are left, or since none is left. For each line,
its source text is given. -/
inductive IsDueTo : Stop → List (Option String) → Prop
  | endOfInput : IsDueTo endOfInput []
  | leave {source : String} {rest : List (Option String)} (hleave : AsksToLeave source) :
      IsDueTo leave (some source :: rest)
  | invalidText {rest : List (Option String)} : IsDueTo invalidText (none :: rest)

/-- What is shown behind the last mark. -/
def shown : Stop → String
  | endOfInput => "\n"
  | leave | invalidText => ""

/-- What is written on account of the stop. -/
def written (abort : String → Abort) : Stop → Octets
  | invalidText => (abort "stream did not contain valid UTF-8").octets
  | endOfInput | leave => []

def status (abort : String → Abort) : Stop → ExitStatus
  | invalidText => .aborted (abort "stream did not contain valid UTF-8").code
  | endOfInput | leave => .success

/-- The lines that are written on account of the stop if an error is written behind the name of the
program. -/
def complaints : Stop → List String
  | invalidText => ["loxpr: stream did not contain valid UTF-8"]
  | endOfInput | leave => []

section Aborted

variable {abort : String → Abort}

theorem written_eq_flatMap_complaints
    (habort : ∀ reason, abort reason = ⟨Octets.ofText ("loxpr: " ++ reason ++ "\n"), 1⟩)
    (stop : Stop) :
    stop.written abort = stop.complaints.flatMap fun text ↦ Octets.ofText (text ++ "\n") := by
  cases stop with
  | invalidText => simp only [written, complaints, habort, List.flatMap_singleton]; rfl
  | _ => rfl

theorem code_status
    (habort : ∀ reason, abort reason = ⟨Octets.ofText ("loxpr: " ++ reason ++ "\n"), 1⟩)
    (stop : Stop) : (stop.status abort).code = if stop = .invalidText then 1 else 0 := by
  cases stop with
  | invalidText => rw [status, habort, ExitStatus.code, if_pos rfl]
  | _ => rfl

end Aborted

end Stop

/-! ### The loop -/

/-- A prompt whose reporter remembers nothing runs the lines up to the one that stops it. -/
theorem promptFrom_unbounded (abort : String → Abort) (lines : List Octets) (octets : Octets) :
    ∃ (sources : List String) (rest : List (Option String)) (stop : Stop),
      lines.map sourceOf? = sources.map some ++ rest ∧
      (∀ source ∈ sources, ¬ AsksToLeave source) ∧ stop.IsDueTo rest ∧
      promptFrom abort (.unbounded octets false) lines =
        ⟨sources.flatMap (fun source ↦ Octets.ofText ("> " ++ shown source)) ++
            Octets.ofText ("> " ++ stop.shown),
          octets ++ sources.flatMap written ++ stop.written abort, stop.status abort⟩ := by
  -- What the reporter has written may be anything; only that it remembers nothing is kept.
  induction lines generalizing octets with
  | nil =>
    refine ⟨[], [], .endOfInput, rfl, by simp, .endOfInput, ?_⟩
    simp [promptFrom, Stop.shown, Stop.written, Stop.status, promptMark, promptEnd,
      Reporter.unbounded]
  | cons line later ih =>
    rw [List.map_cons]
    cases hsource : sourceOf? line with
    | none =>
      refine ⟨[], none :: later.map sourceOf?, .invalidText, rfl, by simp, .invalidText, ?_⟩
      rw [promptFrom, promptStep_of_sourceOf?_eq_none hsource]
      simp [Stop.shown, Stop.written, Stop.status, promptMark, Reporter.unbounded]
    | some source =>
      by_cases hleave : AsksToLeave source
      · refine ⟨[], some source :: later.map sourceOf?, .leave, rfl, by simp, .leave hleave, ?_⟩
        rw [promptFrom, promptStep_of_asksToLeave hsource hleave]
        simp [Stop.shown, Stop.written, Stop.status, promptMark, Reporter.unbounded]
      · obtain ⟨sources, rest, stop, hlines, hstay, hstop, hlater⟩ := ih (octets ++ written source)
        refine ⟨source :: sources, rest, stop, congrArg (some source :: ·) hlines,
          List.forall_mem_cons.mpr ⟨hleave, hstay⟩, hstop, ?_⟩
        rw [promptFrom, promptStep_of_sourceOf? hsource hleave]
        simp [hlater, promptMark]

/-! ### Sessions -/

theorem newline_not_mem_of_mem_sources {input : Octets} {sources : List String}
    {rest : List (Option String)} (hsources : input.lines.map sourceOf? = sources.map some ++ rest)
    {source : String} (hmem : source ∈ sources) : '\n' ∉ source.toList := by
  have hsome : some source ∈ input.lines.map sourceOf? := by
    rw [hsources]
    exact List.mem_append_left _ (List.mem_map_of_mem hmem)
  obtain ⟨line, hline, hsource⟩ := List.mem_map.mp hsome
  exact newline_not_mem_of_sourceOf? (Octets.newline_not_mem_of_mem_lines hline) hsource

section Written

variable {sources : List String}

theorem flatMap_written (sources : List String) :
    sources.flatMap written =
      Octets.ofReports (sources.flatMap fun source ↦ (verdict false source).reports) := by
  rw [Octets.ofReports, List.flatMap_assoc]
  exact List.flatMap_congr fun source _ ↦ written_eq_ofReports source

theorem line_eq_one_of_mem_flatMap_reports (hsources : ∀ source ∈ sources, '\n' ∉ source.toList)
    {diagnostic : Diagnostic}
    (hmem : diagnostic ∈ sources.flatMap fun source ↦ (verdict false source).reports) :
    diagnostic.line = 1 ∧ '\n' ∉ diagnostic.text.toList := by
  obtain ⟨source, hsource, hdiagnostic⟩ := List.mem_flatMap.mp hmem
  exact line_eq_one_of_mem_reports (hsources source hsource) hdiagnostic

/-- What fresh runs of source texts of one line write, and what is written on account of the stop,
is a line for each diagnostic and each complaint. -/
theorem lines_written_append (hsources : ∀ source ∈ sources, '\n' ∉ source.toList) (stop : Stop) :
    Octets.lines (sources.flatMap written ++
        stop.complaints.flatMap fun text ↦ Octets.ofText (text ++ "\n")) =
      ((sources.flatMap fun source ↦ (verdict false source).reports).map Diagnostic.text ++
        stop.complaints).map Octets.ofText := by
  have hcomplaints : ∀ text ∈ stop.complaints, '\n' ∉ text.toList := by
    cases stop <;> simp [Stop.complaints]
  rw [flatMap_written, Octets.ofReports_eq_flatMap_text, ← List.flatMap_append,
    Octets.lines_flatMap_eq_map_iff]
  intro text hmem
  rcases List.mem_append.mp hmem with hmem | hmem
  · obtain ⟨diagnostic, hdiagnostic, rfl⟩ := List.mem_map.mp hmem
    exact (line_eq_one_of_mem_flatMap_reports hsources hdiagnostic).2
  · exact hcomplaints text hmem

end Written

/-- The input is cut behind its newlines, and each piece is run on its own, without the blanks at
its ends, up to the first that asks to leave or is no text. What a piece shows and writes is what a
run with a fresh reporter gives and writes, whatever the other pieces are. The program fails only if
it stops at what is no text. The lines that it writes are the diagnostics of these runs, which are
all on line 1, and at such a stop one more. That one and the code of the exit are left to `abort`,
which writes its reason as a line behind the name of the program. -/
theorem prompt_runs_pieces {abort : String → Abort}
    (habort : ∀ reason, abort reason = ⟨Octets.ofText ("loxpr: " ++ reason ++ "\n"), 1⟩)
    (files : String → Except FileFault Octets) (input : Octets) :
    ∃ (pieces : List Octets) (sources : List String) (rest : List (Option String)) (stop : Stop),
      input.IsCutInto pieces ∧
      pieces.map sourceOf? = sources.map some ++ rest ∧
      (∀ source ∈ sources, ¬ AsksToLeave source) ∧ stop.IsDueTo rest ∧
      let transcript := respondWith abort files input []
      let reports := sources.flatMap fun source ↦ (verdict false source).reports
      transcript.stdout =
        sources.flatMap (fun source ↦ Octets.ofText ("> " ++ shown source)) ++
          Octets.ofText ("> " ++ stop.shown) ∧
      transcript.stderr =
        sources.flatMap written ++
          stop.complaints.flatMap (fun text ↦ Octets.ofText (text ++ "\n")) ∧
      transcript.status.code = (if stop = .invalidText then 1 else 0) ∧
      sources.flatMap written = Octets.ofReports reports ∧
      transcript.stderr.lines =
        (reports.map Diagnostic.text ++ stop.complaints).map Octets.ofText ∧
      ∀ diagnostic ∈ reports, diagnostic.line = 1 := by
  obtain ⟨pieces, hcut⟩ := input.exists_isCutInto
  obtain ⟨sources, rest, stop, hlines, hstay, hstop, hprompt⟩ :=
    promptFrom_unbounded abort input.lines []
  have hsources (source : String) (hmem : source ∈ sources) : '\n' ∉ source.toList :=
    newline_not_mem_of_mem_sources hlines hmem
  rw [map_sourceOf?_lines hcut] at hlines
  refine ⟨pieces, sources, rest, stop, hcut, hlines, hstay, hstop, ?_⟩
  intro transcript reports
  have htranscript : transcript = promptFrom abort (.unbounded [] false) input.lines := rfl
  rw [htranscript, hprompt, List.nil_append, stop.written_eq_flatMap_complaints habort]
  exact ⟨rfl, rfl, stop.code_status habort, flatMap_written sources,
    lines_written_append hsources stop,
    fun _ hmem ↦ (line_eq_one_of_mem_flatMap_reports hsources hmem).1⟩

/-- A session of two lines, of which the second is no text. -/
theorem prompt_runs_pieces_invalidText :
    let input := Octets.ofText "-nil\n" ++ [255]
    let transcript := respond (fun _ ↦ .error .notFound) input []
    (∀ reason, Abort.usual reason = ⟨Octets.ofText ("loxpr: " ++ reason ++ "\n"), 1⟩) ∧
      transcript.status.code = 1 ∧
      ∃ (pieces : List Octets) (sources : List String) (rest : List (Option String)),
        input.IsCutInto pieces ∧ pieces.map sourceOf? = sources.map some ++ none :: rest ∧
        transcript.stdout =
          sources.flatMap (fun source ↦ Octets.ofText ("> " ++ shown source)) ++
            Octets.ofText "> " ∧
        transcript.stderr =
          sources.flatMap written ++
            Octets.ofText "loxpr: stream did not contain valid UTF-8\n" := by
  intro input transcript
  have habort (reason : String) :
      Abort.usual reason = ⟨Octets.ofText ("loxpr: " ++ reason ++ "\n"), 1⟩ := rfl
  have hcode : transcript.status.code = 1 := by decide +kernel
  obtain ⟨pieces, sources, rest, stop, hcut, hpieces, _, hstop, hstdout, hstderr, hstatus, _⟩ :=
    prompt_runs_pieces habort (fun _ ↦ .error .notFound) input
  refine ⟨habort, hcode, ?_⟩
  -- The code of the exit tells why the prompt has stopped.
  cases hstop with
  | invalidText => exact ⟨pieces, sources, _, hcut, hpieces, hstdout, hstderr⟩
  | endOfInput => exact absurd (hcode.symm.trans hstatus) (by decide)
  | leave _ => exact absurd (hcode.symm.trans hstatus) (by decide)

end CommandLine

end Lox
