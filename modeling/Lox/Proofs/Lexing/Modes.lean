import Lox.Proofs.Lexing.Alone
import Lox.Proofs.Lexing.Joining

/-!
# Four modes

Whether a string is open at the end of a text can be told without its lexemes, by reading it one
character after the other. A reader is in code, behind a slash, in a comment or in a string, and
this mode and the next character give the next mode (`Mode.step`). Where a lexeme ends, the mode is
one in which what follows is read as it is in code (`Takes.readsAsCode`), so the two ways of reading
never part: the last mode is that of strings if and only if a string is open
(`after_eq_string_iff`). The pieces before an open string are those of the text before it
(`exists_pieces_of_not_isClosed`), and so are its tokens (`scan_decided_by_modes`).
-/

set_option autoImplicit false
set_option relaxedAutoImplicit false

namespace Lox

/-! ### Modes -/

/-- What a reader takes the next character for. A slash may still turn out to begin a comment. -/
inductive Mode
  | code
  | slash
  | comment
  | string
deriving DecidableEq

namespace Mode

/-- The mode behind a character. -/
def step : Mode → Char → Mode
  | code, character => if character = '/' then slash else if character = '"' then string else code
  | slash, character =>
    if character = '/' then comment else if character = '"' then string else code
  | comment, character => if character = '\n' then code else comment
  | string, character => if character = '"' then code else string

/-- The mode at the end of a text that begins in the given mode. -/
def after (mode : Mode) (text : List Char) : Mode :=
  text.foldl step mode

variable {mode : Mode} {text rest : List Char}

@[simp] theorem after_nil (mode : Mode) : mode.after [] = mode :=
  rfl

@[simp] theorem after_cons (mode : Mode) (character : Char) (text : List Char) :
    mode.after (character :: text) = (mode.step character).after text :=
  rfl

@[simp] theorem after_append (mode : Mode) (first second : List Char) :
    mode.after (first ++ second) = (mode.after first).after second :=
  List.foldl_append

/-! ### Texts that keep the mode -/

theorem after_eq_self (hstep : ∀ character ∈ text, mode.step character = mode) :
    mode.after text = mode := by
  induction text with
  | nil => rfl
  | cons character rest ih =>
    rw [List.forall_mem_cons] at hstep
    rw [after_cons, hstep.1, ih hstep.2]

theorem after_code (hplain : ∀ character ∈ text, character ≠ '/' ∧ character ≠ '"') :
    code.after text = code :=
  after_eq_self fun character hmem ↦ by simp [step, hplain character hmem]

theorem after_string (hquote : '"' ∉ text) : string.after text = string :=
  after_eq_self fun character hmem ↦ by simp [step, ne_of_mem_of_not_mem hmem hquote]

theorem after_comment (hnewline : '\n' ∉ text) : comment.after text = comment :=
  after_eq_self fun character hmem ↦ by simp [step, ne_of_mem_of_not_mem hmem hnewline]

/-- Without a quote no string begins and none ends. -/
theorem after_eq_string_iff_of_quote_not_mem (hquote : '"' ∉ text) :
    mode.after text = .string ↔ mode = .string := by
  induction text generalizing mode with
  | nil => rfl
  | cons character rest ih =>
    rw [List.mem_cons, not_or] at hquote
    have hstep : mode.step character = .string ↔ mode = .string := by
      cases mode <;> simp [step, Ne.symm hquote.1] <;> split_ifs <;> simp
    rw [after_cons, ih hquote.2, hstep]

/-! ### Modes in which lexemes begin -/

/-- The mode is not that of strings, and what follows is read in it as it is in code. -/
structure ReadsAsCode (mode : Mode) (rest : List Char) : Prop where
  ne_string : mode ≠ .string
  step_eq : ∀ next ∈ rest.head?, mode.step next = code.step next

theorem readsAsCode_of_eq_code (hcode : mode = code) (rest : List Char) :
    mode.ReadsAsCode rest := by
  subst hcode
  exact ⟨by decide, fun _ _ ↦ rfl⟩

theorem ReadsAsCode.after_eq_string_iff (hreads : mode.ReadsAsCode rest) :
    mode.after rest = .string ↔ code.after rest = .string := by
  cases rest with
  | nil => simp [hreads.ne_string]
  | cons next later => rw [after_cons, after_cons, hreads.step_eq next rfl]

end Mode

open Mode

/-! ### Lexemes -/

section Plain

variable {character : Char}

theorem IsBlank.plain (hblank : IsBlank character) : character ≠ '/' ∧ character ≠ '"' := by
  rcases hblank with rfl | rfl | rfl | rfl <;> decide

theorem IsLetter.plain (hletter : IsLetter character) : character ≠ '/' ∧ character ≠ '"' := by
  constructor <;> rintro rfl <;> exact absurd hletter (by decide)

theorem IsDecimalDigit.plain (hdigit : IsDecimalDigit character) :
    character ≠ '/' ∧ character ≠ '"' := by
  constructor <;> rintro rfl <;> exact absurd hdigit (by decide)

end Plain

theorem IsDigits.after_code {digits : List Char} (hdigits : IsDigits digits) :
    code.after digits = code :=
  Mode.after_code fun character hmem ↦ (hdigits.isDecimalDigit character hmem).plain

theorem Symbol.after_characters (mark : Symbol) :
    code.after mark.characters = if mark = .slash then .slash else .code := by
  cases mark <;> rfl

variable {text lexeme rest : List Char}

/-- Only a slash and a comment leave another mode than code behind. The one is not followed by a
slash, or it would not be the longest lexeme, and the other only by a newline. -/
theorem IsLongestLexeme.readsAsCode {kind : LexemeClass}
    (hlongest : IsLongestLexeme kind lexeme rest) : (code.after lexeme).ReadsAsCode rest := by
  obtain ⟨hcontains, _⟩ := id hlongest
  cases hcontains with
  | symbol mark =>
    rw [mark.after_characters]
    split
    case isTrue hslash =>
      subst hslash
      refine ⟨by decide, fun next hnext ↦ ?_⟩
      have hne : next ≠ '/' := by
        rintro rfl
        exact hlongest.not_isLexeme_concat hnext ⟨.comment, .comment (by simp)⟩
      simp [step, hne]
    case isFalse => exact readsAsCode_of_eq_code rfl rest
  | @word head tail hhead htail =>
    have hplain : ∀ character ∈ tail, character ≠ '/' ∧ character ≠ '"' :=
      fun character hmem ↦ (htail character hmem).elim IsLetter.plain IsDecimalDigit.plain
    exact readsAsCode_of_eq_code (after_code (List.forall_mem_cons.mpr ⟨hhead.plain, hplain⟩)) rest
  | whole hdigits => exact readsAsCode_of_eq_code hdigits.after_code rest
  | @fraction whole fraction hwhole hfraction =>
    have hcode : code.after (whole ++ '.' :: fraction) = code := by
      rw [after_append, hwhole.after_code]
      exact hfraction.after_code
    exact readsAsCode_of_eq_code hcode rest
  | @string characters hquote =>
    have hcode : code.after ('"' :: (characters ++ ['"'])) = code := by
      have hstring : code.after ('"' :: characters) = .string := after_string hquote
      rw [← List.cons_append, after_append, hstring]
      rfl
    exact readsAsCode_of_eq_code hcode rest
  | @comment characters hnewline =>
    have hcomment : code.after ('/' :: '/' :: characters) = .comment := after_comment hnewline
    rw [hcomment]
    refine ⟨by decide, fun next hnext ↦ ?_⟩
    rw [hlongest.newline_of_comment next hnext]
    rfl

theorem Takes.readsAsCode {piece : Piece} (htakes : Takes text piece rest)
    (hclosed : piece.content ≠ .openString) : (code.after piece.lexeme).ReadsAsCode rest := by
  cases htakes with
  | blank hblank => exact readsAsCode_of_eq_code (after_code (by simpa using hblank.plain)) rest
  | lexeme _ hlongest _ => exact hlongest.readsAsCode
  | @unrecognized character _ _ hnone hquote =>
    have hslash : character ≠ '/' := by
      rintro rfl
      exact hnone ⟨['/'], ⟨.symbol, .symbol .slash⟩, rest, rfl⟩
    exact readsAsCode_of_eq_code (after_code (by simpa using ⟨hslash, hquote⟩)) rest
  | openString _ => exact absurd rfl hclosed

/-! ### Open strings -/

/-- Reading a text in the four modes ends in a string exactly if a string is open at its end. -/
theorem after_eq_string_iff (text : List Char) : code.after text = .string ↔ ¬ IsClosed text := by
  induction text using takes_induction with
  | nil => simp [isClosed_nil]
  | step text rest piece htakes ih =>
    rw [isClosed_iff_of_takes htakes]
    obtain ⟨content, lexeme⟩ := piece
    by_cases hopen : content = .openString
    · subst hopen
      obtain ⟨characters, rfl, -, -, hquote⟩ := htakes.exists_of_openString
      have hstring : code.after ('"' :: characters) = .string := after_string hquote
      simp [hstring]
    · rw [← htakes.append_eq, after_append, (htakes.readsAsCode hopen).after_eq_string_iff, ih]
      simp [hopen]

/-- Before an open string the pieces are those of the text before it. -/
theorem exists_pieces_of_not_isClosed (hopen : ¬ IsClosed text) :
    ∃ before characters, text = before ++ '"' :: characters ∧ '"' ∉ characters ∧
      pieces text = pieces before ++ [⟨.openString, '"' :: characters⟩] := by
  induction text using takes_induction with
  | nil => exact absurd isClosed_nil hopen
  | step text rest piece htakes ih =>
    rw [pieces_of_takes htakes]
    obtain ⟨content, lexeme⟩ := piece
    by_cases hcontent : content = .openString
    · subst hcontent
      obtain ⟨characters, rfl, rfl, rfl, hquote⟩ := htakes.exists_of_openString
      refine ⟨[], characters, rfl, hquote, ?_⟩
      rw [pieces_nil]
      rfl
    · rw [isClosed_iff_of_takes htakes, not_and] at hopen
      obtain ⟨before, characters, rfl, hquote, hpieces⟩ := ih (hopen hcontent)
      obtain rfl : text = lexeme ++ (before ++ '"' :: characters) := htakes.append_eq.symm
      refine ⟨lexeme ++ before, characters, (List.append_assoc _ _ _).symm, hquote, ?_⟩
      rw [hpieces, pieces_of_takes (htakes.of_append hcontent)]
      rfl

theorem tokensFrom_of_pieces_eq {before characters : List Char}
    (hpieces : pieces text = pieces before ++ [⟨.openString, '"' :: characters⟩]) (line : Nat) :
    tokensFrom line text = tokensFrom line before := by
  rw [tokensFrom, hpieces, placed_append, List.filterMap_append]
  exact List.append_nil _

/-! ### The last opening quote -/

/-- The text begins with this part and a quote behind it, and the quote opens a string. -/
def OpensAfter (text before : List Char) : Prop :=
  before ++ ['"'] <+: text ∧ (code.after before).step '"' = .string

/-- Behind this part of the text is the last quote that opens a string. -/
structure IsBeforeLastOpening (text before : List Char) : Prop where
  opensAfter : OpensAfter text before
  length_le : ∀ other, OpensAfter text other → other.length ≤ before.length

theorem isBeforeLastOpening_of_quote_not_mem {before characters : List Char}
    (hstring : code.after (before ++ '"' :: characters) = .string) (hquote : '"' ∉ characters) :
    IsBeforeLastOpening (before ++ '"' :: characters) before := by
  constructor
  · refine ⟨⟨characters, by simp⟩, ?_⟩
    rwa [after_append, after_cons, after_eq_string_iff_of_quote_not_mem hquote] at hstring
  · rintro other ⟨hleads, _⟩
    rcases prefix_or_exists_of_prefix_append_cons hleads with hwithin | ⟨more, hother⟩
    · have hle := hwithin.length_le
      rw [List.length_append] at hle
      exact Nat.le_of_add_right_le hle
    -- Were there more between the two quotes, the other one would be among the characters.
    · rcases List.eq_nil_or_concat more with rfl | ⟨inside, last, rfl⟩
      · exact (congrArg List.length (List.append_inj_left' hother rfl)).le
      · rw [hother, List.prefix_append_right_inj, List.cons_prefix_cons] at hleads
        rw [List.concat_eq_append, ← List.cons_append, ← List.append_assoc] at hother
        cases (List.append_inj' hother rfl).2
        exact absurd (hleads.2.subset (by simp)) hquote

/-- A scan reports a string on the last line if reading the text in the four modes ends in a string,
and otherwise nothing. The open string leaves the tokens before it as they are: they are those of
the text before the last quote that opens a string, but for the line of the end. -/
theorem scan_decided_by_modes (source : String) :
    let newlines := source.toList.count '\n'
    (scan source).errors =
        (if code.after source.toList = .string then [.unterminatedString (1 + newlines)] else []) ∧
      (code.after source.toList = .string →
        ∃ before tokens, IsBeforeLastOpening source.toList before ∧
          (scan (String.ofList before)).tokens =
            tokens ++ [⟨.endOfInput, "", 1 + before.count '\n'⟩] ∧
          (scan source).tokens = tokens ++ [⟨.endOfInput, "", 1 + newlines⟩]) := by
  intro newlines
  constructor
  · split
    case isTrue hstring =>
      exact errors_scanFrom_of_not_isClosed ((after_eq_string_iff _).mp hstring) 1
    case isFalse hnone =>
      exact errors_scanFrom_eq_nil_iff.mpr (not_not.mp (mt (after_eq_string_iff _).mpr hnone))
  · intro hstring
    obtain ⟨before, characters, htext, hquote, hpieces⟩ :=
      exists_pieces_of_not_isClosed ((after_eq_string_iff _).mp hstring)
    refine ⟨before, tokensFrom 1 before, ?_, ?_, ?_⟩
    · rw [htext] at hstring ⊢
      exact isBeforeLastOpening_of_quote_not_mem hstring hquote
    · rw [scan_eq_scanFrom, String.toList_ofList, tokens_scanFrom]
      rfl
    · rw [scan_eq_scanFrom, tokens_scanFrom, tokensFrom_of_pieces_eq hpieces]
      rfl

/-- The slashes in the string begin no comment, and the quote in the comment opens no string. The
slash before the last quote is a token. -/
theorem scan_decided_by_modes_openString :
    let source := "\"//\" // \"\n/\"a\n"
    code.after source.toList = .string ∧
      (scan source).errors = [.unterminatedString 3] ∧
      ∃ before tokens, IsBeforeLastOpening source.toList before ∧
        (scan (String.ofList before)).tokens =
          tokens ++ [⟨.endOfInput, "", 1 + before.count '\n'⟩] ∧
        (scan source).tokens = tokens ++ [⟨.endOfInput, "", 3⟩] := by
  intro source
  have hstring : code.after source.toList = .string := by decide
  have hnewlines : source.toList.count '\n' = 2 := by decide
  have hscan := scan_decided_by_modes source
  simp only [if_pos hstring, hnewlines] at hscan
  exact ⟨hstring, hscan.1, hscan.2 hstring⟩

end Lox
